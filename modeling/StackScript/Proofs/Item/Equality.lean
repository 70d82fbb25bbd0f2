import StackScript.Proofs.Number.ShortestForm

/-!
# Equality of items and their views

Integers, truth values and byte strings are scalars: each of them can be seen as an integer, as a
truth value and as bytes. The bytes decide the other two views (`integer?_eq_map_bytes?`,
`truth_iff_of_bytes?`), but not the other way round, since an integer has many forms.

Equality compares in three ways, depending on what both items are. `Item.identity` is the one thing
that all of them come down to: the bytes of a scalar, the cell of a container, the number of a host
object. Items are equal exactly if these are (`equals_iff_identity`). Integers are compared as
numbers and not as bytes, so this rests on the form of an integer being read back.

Main statement: `equals_coherent`.
-/

namespace StackScript.Item

open Number.TwosComplement

/-- Whether an item can be seen as an integer and as bytes. -/
def isScalar : Item → Bool
  | .integer _ | .boolean _ | .bytes _ => true
  | .container _ | .host _ => false

/-! ### Views of a scalar -/

theorem isScalar_iff_exists_bytes? {item : Item} :
    item.isScalar = true ↔ ∃ data, item.bytes? = some data := by
  cases item <;> simp [isScalar, bytes?]

/-- The integer of a scalar is read from its bytes. -/
theorem integer?_eq_map_bytes? (item : Item) : item.integer? = item.bytes?.map decode := by
  cases item with
  | integer value => rw [integer?, bytes?, Option.map_some, decode_encode]
  | boolean value => cases value <;> rfl
  | bytes data => rfl
  | container ref => rfl
  | host object => rfl

/-- Bytes stand for zero exactly if all of them are clear: the sign of a set byte cannot make up for
the bytes below it. -/
theorem decode_eq_zero_iff (data : Bytes) : decode data = 0 ↔ ∀ byte ∈ data, byte = 0 := by
  have hclear : ∀ byte : UInt8, byte = 0 ↔ byte.toNat = 0 := fun _ => UInt8.toNat_inj.symm
  induction data with
  | nil => exact ⟨fun _ _ hmem => absurd hmem List.not_mem_nil, fun _ => rfl⟩
  | cons byte rest ih =>
    have hbyte := byte.toNat_lt
    have hrest : (∀ byte ∈ rest, byte = 0) ↔ decode rest = 0 := ih.symm
    rw [List.forall_mem_cons, hclear, hrest]
    cases rest with
    | nil =>
      have hnil : decode [] = 0 := rfl
      have htop : (0x80 : UInt8).toNat = 128 := rfl
      rw [decode_singleton]
      simp only [UInt8.le_iff_toNat_le, htop]
      split_ifs <;> omega
    | cons next rest =>
      rw [decode_cons_cons]
      omega

/-- A scalar is true exactly if its bytes do not stand for zero. -/
theorem truth_iff_of_bytes? {item : Item} {data : Bytes} (h : item.bytes? = some data) :
    item.truth = true ↔ decode data ≠ 0 := by
  cases item with
  | integer value =>
    cases h
    rw [decode_encode]
    exact bne_iff_ne
  | boolean value =>
    cases h
    cases value <;> decide
  | bytes bytes =>
    cases h
    rw [Ne, decode_eq_zero_iff, truth, List.any_eq_true]
    simp
  | container ref => cases h
  | host object => cases h

/-- **A scalar is true exactly if its integer is not zero.** -/
theorem truth_iff_of_integer? {item : Item} {value : Int} (h : item.integer? = some value) :
    item.truth = true ↔ value ≠ 0 := by
  rw [integer?_eq_map_bytes?, Option.map_eq_some_iff] at h
  obtain ⟨data, hdata, rfl⟩ := h
  exact truth_iff_of_bytes? hdata

/-! ### What equality compares -/

/-- What tells an item from the items that are not equal to it. -/
inductive Identity where
  /-- The bytes of a scalar. -/
  | bytes (data : Bytes)
  /-- The kind and the cell of a container. -/
  | container (ref : CellRef)
  /-- The number of a host object. -/
  | host (id : Nat)
  deriving DecidableEq

/-- A scalar goes by its bytes, whatever it is. -/
def identity : Item → Identity
  | .container ref => .container ref
  | .host object => .host object.id
  | scalar => .bytes (scalar.bytes?.getD [])

theorem identity_eq_bytes_iff {item : Item} {data : Bytes} :
    item.identity = .bytes data ↔ item.bytes? = some data := by
  cases item <;> simp [identity, bytes?]

theorem encode_inj {v w : Int} : encode v = encode w ↔ v = w := by
  constructor
  · intro h
    rw [← decode_encode v, h, decode_encode]
  · rintro rfl
    rfl

/-- **Items are equal exactly if their identities are.** -/
theorem equals_iff_identity (a b : Item) : a.equals b = true ↔ a.identity = b.identity := by
  cases a with
  | integer value =>
    cases b with
    | integer other => simp [equals, bytes?, identity, encode_inj]
    | _ => simp [equals, bytes?, identity]
  | boolean value => cases b <;> simp [equals, bytes?, identity]
  | bytes data => cases b <;> simp [equals, bytes?, identity]
  | container ref => cases b <;> simp [equals, bytes?, identity]
  | host object => cases b <;> simp [equals, bytes?, identity]

/-- If one of two items is a scalar, they are equal exactly if both have bytes and these
coincide. -/
theorem equals_iff_bytes? {a b : Item} (h : a.isScalar = true ∨ b.isScalar = true) :
    a.equals b = true ↔ ∃ data, a.bytes? = some data ∧ b.bytes? = some data := by
  simp only [← identity_eq_bytes_iff, isScalar_iff_exists_bytes?, equals_iff_identity] at h ⊢
  constructor
  · intro hab
    rcases h with ⟨data, hdata⟩ | ⟨data, hdata⟩
    · exact ⟨data, hdata, hab ▸ hdata⟩
    · exact ⟨data, hab ▸ hdata, hdata⟩
  · rintro ⟨data, ha, hb⟩
    rw [ha, hb]

theorem equals_integer_iff {item : Item} {value : Int} :
    item.equals (.integer value) = true ↔ item.bytes? = some (encode value) := by
  rw [equals_iff_bytes? (.inr rfl)]
  constructor
  · rintro ⟨data, hdata, hvalue⟩
    rw [hdata, ← hvalue, bytes?]
  · intro h
    exact ⟨_, h, rfl⟩

/-! ### The main statement -/

/-- **Equality and the views of items are coherent.** Equality is reflexive, symmetric and
transitive. If one of two items is a scalar, they are equal exactly if both have bytes and these
coincide, and then all their views coincide. A scalar is true exactly if its integer is not zero. -/
theorem equals_coherent (a b c : Item) :
    (a.equals a = true ∧ (a.equals b = true → b.equals a = true) ∧
      (a.equals b = true → b.equals c = true → a.equals c = true)) ∧
    (a.isScalar = true ∨ b.isScalar = true →
      (a.equals b = true ↔ ∃ data, a.bytes? = some data ∧ b.bytes? = some data) ∧
      (a.equals b = true → ∃ value truth data,
        (a.integer? = some value ∧ b.integer? = some value) ∧
        (a.truth = truth ∧ b.truth = truth) ∧
        (a.bytes? = some data ∧ b.bytes? = some data))) ∧
    (a.isScalar = true → ∃ value, a.integer? = some value ∧ (a.truth = true ↔ value ≠ 0)) := by
  refine ⟨⟨?_, ?_, ?_⟩, fun hscalar => ⟨equals_iff_bytes? hscalar, fun hequal => ?_⟩,
    fun hscalar => ?_⟩
  · rw [equals_iff_identity]
  · rw [equals_iff_identity, equals_iff_identity]
    exact Eq.symm
  · rw [equals_iff_identity, equals_iff_identity, equals_iff_identity]
    exact Eq.trans
  · obtain ⟨data, ha, hb⟩ := (equals_iff_bytes? hscalar).mp hequal
    refine ⟨decode data, b.truth, data, ⟨?_, ?_⟩, ⟨?_, rfl⟩, ha, hb⟩
    · rw [integer?_eq_map_bytes?, ha, Option.map_some]
    · rw [integer?_eq_map_bytes?, hb, Option.map_some]
    · rw [Bool.eq_iff_iff, truth_iff_of_bytes? ha, truth_iff_of_bytes? hb]
  · obtain ⟨data, hdata⟩ := isScalar_iff_exists_bytes?.mp hscalar
    have hvalue : a.integer? = some (decode data) := by
      rw [integer?_eq_map_bytes?, hdata, Option.map_some]
    exact ⟨decode data, hvalue, truth_iff_of_integer? hvalue⟩

/-- The integer 0, the truth value false and one clear byte are equal, and so are their views. The
empty byte string stands for the same integer and is equal to none of them. -/
theorem equals_coherent_zero :
    (Item.integer 0).equals (.boolean false) = true ∧
      (Item.boolean false).equals (.bytes [0x00]) = true ∧
      (Item.integer 0).equals (.bytes [0x00]) = true ∧
      (∃ value truth data,
        ((Item.integer 0).integer? = some value ∧ (Item.boolean false).integer? = some value) ∧
        ((Item.integer 0).truth = truth ∧ (Item.boolean false).truth = truth) ∧
        ((Item.integer 0).bytes? = some data ∧ (Item.boolean false).bytes? = some data)) ∧
      (Item.bytes []).integer? = (Item.integer 0).integer? ∧
      (Item.bytes []).equals (.integer 0) = false := by
  have hfirst : (Item.integer 0).equals (.boolean false) = true := by decide
  have hsecond : (Item.boolean false).equals (.bytes [0x00]) = true := by decide
  obtain ⟨⟨-, -, htrans⟩, hviews, -⟩ :=
    equals_coherent (.integer 0) (.boolean false) (.bytes [0x00])
  exact ⟨hfirst, hsecond, htrans hfirst hsecond, (hviews (.inl rfl)).2 hfirst, rfl, by decide⟩

end StackScript.Item
