import StackScript.Proofs.Consumption
import StackScript.Proofs.Assembly.Labels
import StackScript.Proofs.Assembly.Relisting

/-!
# Scripts that their listing restores

A listing can be taken of any script that is tiled by instructions. The reader of host calls accepts
more than the assembler writes: the length of a name may stand in a wide form, and the name may be
any bytes. Everything else has one form only.

Main statement: a listing is assembled into its script again exactly if the length of every name
stands in the one byte behind the opcode, and the name can be written between double quotes on a
line (`Assembly.listing_restores_iff`). A script whose listing is assembled into another one is
`wideCall`.
-/

namespace StackScript

open Assembly

namespace Instruction

variable {script : Script} {offset next : Nat} {found : Instruction}

/-! ### Restorable instructions -/

/-- The instruction stands in the script as it would be written, and a statement can stand for
it. -/
structure Restorable (script : Script) (entry : Nat × Instruction) : Prop where
  printable : entry.2.Printable
  holds : script.Holds entry.1 (entry.1 + entry.2.encode.length) entry.2.encode

theorem Restorable.of_holds (hprintable : found.Printable)
    (h : script.Holds offset next found.encode) : Restorable script (offset, found) := by
  refine ⟨hprintable, ?_⟩
  rwa [h.stop_eq]

theorem Restorable.decodeAt_eq (h : Restorable script (offset, found)) :
    decodeAt script offset = .ok found (offset + found.encode.length) := by
  obtain ⟨hprintable, before, after, hscript, rfl, -⟩ := h
  exact decodeAt_encode hprintable.encodable hscript

/-- Every instruction that is read is restorable, unless it is a host call. -/
theorem restorable_of_decodeAt (h : decodeAt script offset = .ok found next)
    (hcall : ∀ name, found ≠ .syscall name) : Restorable script (offset, found) := by
  obtain ⟨hencodable, hholds⟩ := holds_of_decodeAt h
  refine .of_holds ?_ (hholds hcall)
  cases found with
  | syscall name => exact absurd rfl (hcall name)
  | _ => exact hencodable

/-- A name without double quotes and line feeds can be printed. -/
theorem printable_of_isCallName {text : String} (h : IsCallName text)
    (hquote : '"' ∉ text.toList) (hline : '\n' ∉ text.toList) :
    (syscall (Text.Utf8.ofString text)).Printable :=
  ⟨text, h, rfl, isWord_quoted hquote hline⟩

/-- **Which host calls are restorable.** -/
theorem restorable_syscall_iff {name : Bytes} (h : decodeAt script offset = .ok (.syscall name) next) :
    Restorable script (offset, .syscall name) ↔
      script.bytes[offset + 1]? = some (UInt8.ofNat name.length) ∧ (syscall name).Printable := by
  constructor
  · rintro ⟨hprintable, hholds⟩
    refine ⟨?_, hprintable⟩
    rw [← List.getElem?_drop, hholds.drop_eq]
    rfl
  · rintro ⟨hlength, hprintable⟩
    exact .of_holds hprintable (holds_of_syscall h hlength)

namespace Tiles

variable {code : List (Nat × Instruction)}

theorem exists_decodeAt (h : Tiles script offset code) :
    ∀ entry ∈ code, ∃ next, decodeAt script entry.1 = .ok entry.2 next := by
  induction h with
  | done => simp
  | next hdecode _ _ ih =>
    rw [List.forall_mem_cons]
    exact ⟨⟨_, hdecode⟩, ih⟩

/-- A script is tiled in one way only. -/
theorem unique {code' : List (Nat × Instruction)} (h : Tiles script offset code)
    (h' : Tiles script offset code') : code = code' := by
  induction h generalizing code' with
  | done =>
    cases h' with
    | done => rfl
    | next _ hlt hrest => exact absurd hrest.offset_le (by omega)
  | next hdecode hlt hrest ih =>
    cases h' with
    | done => exact absurd hrest.offset_le (by omega)
    | next hdecode' _ hrest' =>
      rw [hdecode] at hdecode'
      cases hdecode'
      rw [ih hrest']

/-- Only host calls may fail to be restorable. -/
theorem restorable_iff (h : Tiles script offset code) :
    (∀ entry ∈ code, Restorable script entry) ↔
      ∀ start name, (start, .syscall name) ∈ code →
        script.bytes[start + 1]? = some (UInt8.ofNat name.length) ∧ (syscall name).Printable := by
  constructor
  · intro hall start name hmem
    obtain ⟨next, hdecode⟩ := h.exists_decodeAt _ hmem
    exact (restorable_syscall_iff hdecode).mp (hall _ hmem)
  · rintro hcalls ⟨start, found⟩ hmem
    obtain ⟨next, hdecode⟩ := h.exists_decodeAt _ hmem
    by_cases hcall : ∃ name, found = .syscall name
    · obtain ⟨name, rfl⟩ := hcall
      exact (restorable_syscall_iff hdecode).mpr (hcalls start name hmem)
    · exact restorable_of_decodeAt hdecode fun name heq => hcall ⟨name, heq⟩

/-- Restorable instructions stand where they would be placed if they were written from the beginning
of the tiling on. -/
theorem exists_placed {good rest : List (Nat × Instruction)} (h : Tiles script offset (good ++ rest))
    (hgood : ∀ entry ∈ good, Restorable script entry) :
    ∃ founds next, good = placed offset founds ∧ (∀ found ∈ founds, found.Printable) ∧
      script.Holds offset next (founds.flatMap encode) ∧ Tiles script next rest := by
  induction good generalizing offset with
  | nil => exact ⟨[], offset, rfl, by simp, .nil h.offset_le, h⟩
  | cons entry good ih =>
    rw [List.forall_mem_cons] at hgood
    cases h with
    | @next _ next found _ hdecode _ hrest =>
      obtain ⟨hentry, hgood⟩ := hgood
      obtain rfl : offset + found.encode.length = next := by
        rw [hentry.decodeAt_eq] at hdecode
        cases hdecode
        rfl
      obtain ⟨founds, stop, rfl, hfounds, hholds, htiles⟩ := ih hrest hgood
      refine ⟨found :: founds, stop, rfl, ?_, hentry.holds.append hholds, htiles⟩
      rw [List.forall_mem_cons]
      exact ⟨hentry.printable, hfounds⟩

end Tiles

end Instruction

namespace Assembly

open Instruction

/-! ### What a listing shows -/

/-- A listing that is not refused shows instructions that tile the script. -/
theorem exists_tiles_of_listingOnto {script : Script} {count cursor : Nat} {done text : String}
    (hcursor : cursor ≤ script.size) (hcount : script.size - cursor ≤ count)
    (h : listingOnto script done count cursor = .ok text) :
    ∃ code, Tiles script cursor code ∧ text = done ++ listingText code := by
  have hnone : listingText [] = "" := by simp [listingText]
  induction count generalizing cursor done with
  | zero =>
    cases h
    obtain rfl : cursor = script.size := by omega
    exact ⟨[], .done, by rw [hnone, String.append_empty]⟩
  | succ count ih =>
    rw [listingOnto] at h
    split at h
    · cases h
      obtain rfl : cursor = script.size := by omega
      exact ⟨[], .done, by rw [hnone, String.append_empty]⟩
    · rw [runAt_readText] at h
      have hbounds := decodeAt_bounds script hcursor
      cases hdecode : decodeAt script cursor with
      | error cause next =>
        rw [hdecode] at h
        cases h
      | ok found next =>
        rw [hdecode] at h hbounds
        obtain ⟨hlt, hle⟩ := hbounds
        obtain ⟨code, htiles, rfl⟩ := ih hle (by omega) h
        exact ⟨(cursor, found) :: code, .next hdecode hlt htiles,
          by simp [listingText, String.append_assoc]⟩

/-- **A script has a listing exactly if instructions tile it**, and the listing shows them. -/
theorem listing_eq_ok_iff {script : Script} {text : String} :
    listing script = .ok text ↔ ∃ code, Tiles script 0 code ∧ text = listingText code := by
  constructor
  · intro h
    obtain ⟨code, htiles, rfl⟩ := exists_tiles_of_listingOnto (Nat.zero_le _) (Nat.le_refl _) h
    exact ⟨code, htiles, String.empty_append⟩
  · rintro ⟨code, htiles, rfl⟩
    rw [listing, listingOnto_of_tiles htiles (Nat.sub_le _ _), String.empty_append]

/-! ### The line of a host call -/

/-- The words of the line of a host call up to the name. -/
def callWords (offset : Nat) : List (List Char) :=
  [(Text.fourDigits offset).toList ++ [':'], Opcode.syscall.mnemonic.toList]

/-- The line of a host call up to the name, which may hold anything. -/
def callHead (offset : Nat) : List Char := spaced (callWords offset) ++ [' ']

theorem isWord_callWords (offset : Nat) : ∀ word ∈ callWords offset, IsWord word := by
  rw [callWords, List.forall_mem_cons, List.forall_mem_singleton]
  exact ⟨isWord_label offset, isWord_name (.syscall [])⟩

theorem newline_not_mem_callHead (offset : Nat) : '\n' ∉ callHead offset := by
  rw [callHead, List.mem_append, not_or]
  exact ⟨oneLine_spaced (isWord_callWords offset), by decide⟩

theorem spaced_lineWords_syscall (offset : Nat) (name : Bytes) :
    ∃ operand, spaced (lineWords offset (.syscall name)) = callHead offset ++ operand := by
  simp [lineWords, Instruction.words, Instruction.name, operandText?, spaced, callHead, callWords]

theorem tokenize_callHead {offset : Nat} {more : List Char} {tokens : List Token}
    (h : tokenize (callHead offset ++ more) = .ok tokens) :
    ∃ column operands, tokens =
      ⟨String.ofList ((Text.fourDigits offset).toList ++ [':']), 1⟩ ::
        ⟨String.ofList Opcode.syscall.mnemonic.toList, column⟩ :: operands := by
  have hline : callHead offset ++ more = ((Text.fourDigits offset).toList ++ [':']) ++
      ' ' :: (Opcode.syscall.mnemonic.toList ++ ' ' :: more) := by
    simp [callHead, callWords, spaced]
  have hname : IsWord Opcode.syscall.mnemonic.toList := isWord_name (.syscall [])
  rw [tokenize, hline, Scan.run_word_blank (isWord_label offset), Scan.run_word_blank hname] at h
  obtain ⟨operands, rfl⟩ := Scan.exists_eq_append_of_run h
  exact ⟨_, operands, rfl⟩

/-- The line of a host call has one statement, and it begins as it should. -/
theorem lineEntries_callHead {offset : Nat} {more : List Char} {tokens : List Token}
    (hline : '\n' ∉ callHead offset ++ more) (h : tokenize (callHead offset ++ more) = .ok tokens)
    (number : Nat) :
    ∃ s : Statement, statements (lineEntries (callHead offset ++ more, number)) = [s] ∧
      s.head.text = Opcode.syscall.mnemonic ∧ s.WellWorded := by
  have hwords := isWord_of_tokenize hline h
  obtain ⟨column, operands, rfl⟩ := tokenize_callHead h
  have hname : (Token.mk (String.ofList Opcode.syscall.mnemonic.toList) column).label? = none :=
    label?_of_isAlphanum (fun _ hc => Opcode.isAlphanum_of_mem_mnemonic hc) column
  refine ⟨⟨number, ⟨String.ofList Opcode.syscall.mnemonic.toList, column⟩, operands⟩, ?_,
    String.ofList_toList, fun token htoken => hwords token (by simp [htoken])⟩
  simp only [lineEntries, h, tokenEntries, label?_fourDigits, hname]
  rfl

theorem Statement.exists_name_of_instruction {s : Statement} {resolve : Resolver} {address : Nat}
    {found : Instruction} (hhead : s.head.text = Opcode.syscall.mnemonic) (hwords : s.WellWorded)
    (h : s.instruction resolve address = .ok found) :
    ∃ name, found = .syscall name ∧ (Instruction.syscall name).Printable := by
  obtain ⟨command, hcommand, rfl⟩ := map_eq_ok h
  rw [command_of_mnemonic hhead] at hcommand
  obtain ⟨text, hoperand, hcommand⟩ := bind_eq_ok hcommand
  obtain ⟨token, hoperands, rfl⟩ := operand_eq_ok hoperand
  obtain ⟨name, hname, rfl⟩ := map_eq_ok hcommand
  exact ⟨name, rfl, printable_of_nameOperand (hwords token (by simp [hoperands])) hname⟩

/-! ### Assembling a listing that shows host calls -/

/-- Every line of a source that is taken in has tokens. -/
theorem exists_tokens_of_layout {source : String} {table : Layout} (h : layout source = .ok table) :
    ∀ line ∈ Text.lines source, ∃ tokens, tokenize line = .ok tokens := by
  have hgeneral : ∀ (lines : List (List Char)) (number : Nat) (start : Layout),
      (lines.zipIdx number).foldlM Layout.addLine start = .ok table →
      ∀ line ∈ lines, ∃ tokens, tokenize line = .ok tokens := by
    intro lines
    induction lines with
    | nil => simp
    | cons line lines ih =>
      intro number start hfold
      rw [List.zipIdx_cons, List.foldlM_cons] at hfold
      obtain ⟨next, hnext, hfold⟩ := bind_eq_ok hfold
      rw [List.forall_mem_cons]
      refine ⟨?_, ih _ next hfold⟩
      unfold Layout.addLine at hnext
      split at hnext
      · cases hnext
      · rename_i tokens htokens
        exact ⟨tokens, htokens⟩
  exact hgeneral _ 1 {} h

/-- What is written begins with the instructions that the first statements stand for everywhere. -/
theorem exists_append_of_denotes {resolve : Resolver} {added others : List Statement}
    {founds written : List Instruction} {offset : Nat}
    (hadded : List.Forall₂ Statement.Denotes added founds)
    (h : List.Forall₂ (fun s entry => s.instruction resolve entry.1 = .ok entry.2) (added ++ others)
      (placed offset written)) :
    ∃ more next, written = founds ++ more ∧
      List.Forall₂ (fun s entry => s.instruction resolve entry.1 = .ok entry.2) others
        (placed next more) := by
  induction hadded generalizing offset written with
  | nil => exact ⟨written, offset, rfl, h⟩
  | @cons s found _ _ hs _ ih =>
    cases written with
    | nil => cases h
    | cons first written =>
      cases h with
      | cons hfirst hrest =>
        obtain rfl : found = first := by
          rw [hs] at hfirst
          exact Except.ok.inj hfirst
        obtain ⟨more, next, rfl, hmore⟩ := ih hrest
        exact ⟨more, next, rfl, hmore⟩

/-- The listing of printable instructions has a statement for each of them. -/
theorem denotes_listed {founds : List Instruction} (h : ∀ found ∈ founds, found.Printable)
    (offset number : Nat) :
    List.Forall₂ Statement.Denotes
      (statements ((((placed offset founds).map fun entry =>
        spaced (lineWords entry.1 entry.2)).zipIdx number).flatMap lineEntries)) founds := by
  obtain ⟨table, added, hfold, hstatements, hall⟩ :=
    Layout.foldlM_addLine_listed h offset {} (by simp) number
  have hcovers := (Layout.covers_empty.addLines hfold).statements
  rw [hstatements, List.nil_append] at hcovers
  rw [← hcovers]
  simpa using hall

/-- The lines of printable instructions are followed by the beginning of the line of a host call.
The name may hold line feeds, so how the line ends is not known. -/
theorem lines_listingText_syscall {founds : List Instruction} (h : ∀ found ∈ founds, found.Printable)
    (offset : Nat) (name : Bytes) (rest : List (Nat × Instruction)) :
    ∃ more others, Text.lines (listingText (placed 0 founds ++ (offset, .syscall name) :: rest)) =
      ((placed 0 founds).map fun entry => spaced (lineWords entry.1 entry.2)) ++
        (callHead offset ++ more) :: others := by
  obtain ⟨operand, hoperand⟩ := spaced_lineWords_syscall offset name
  have hne : callHead offset ≠ [] := by simp [callHead]
  have hreturn : (callHead offset).getLast? ≠ some '\r' := by simp [callHead]
  have hlines := Text.lines_flatMap_append (oneLine_listed h 0) hne (newline_not_mem_callHead offset)
    hreturn
  rw [← String.ofList_toList (s := listingText _), toList_listingText, List.map_append,
    List.flatMap_append, List.map_cons, List.flatMap_cons, hoperand, List.append_assoc,
    List.append_assoc]
  exact hlines _

/-- A host call that follows printable instructions in a listing is assembled, if at all, behind
their bytes, into a host call with a name that can be printed. -/
theorem exists_call_of_assemble {founds : List Instruction} (h : ∀ found ∈ founds, found.Printable)
    {offset : Nat} {name : Bytes} {rest : List (Nat × Instruction)} {script : Script}
    (hassemble : assemble (listingText (placed 0 founds ++ (offset, .syscall name) :: rest)) =
      .ok script) :
    ∃ name' after, (Instruction.syscall name').Printable ∧
      script.bytes = founds.flatMap encode ++ (Instruction.syscall name').encode ++ after := by
  obtain ⟨more, others, hlines⟩ := lines_listingText_syscall h offset name rest
  obtain ⟨table, written, htable, hbytes, hwritten⟩ := passes_of_assemble hassemble
  have hmem : callHead offset ++ more ∈
      Text.lines (listingText (placed 0 founds ++ (offset, .syscall name) :: rest)) := by
    simp [hlines]
  obtain ⟨tokens, htokens⟩ := exists_tokens_of_layout htable _ hmem
  -- The statements of the lines before come first, and then the one of the host call.
  rw [entries, hlines, List.zipIdx_append, List.flatMap_append, List.zipIdx_cons, List.flatMap_cons,
    statements_append, statements_append] at hwritten
  obtain ⟨s, hs, hhead, hwords⟩ :=
    lineEntries_callHead (Text.newline_not_mem_of_mem_lines hmem) htokens (1 + _)
  rw [hs] at hwritten
  obtain ⟨later, next, rfl, hlater⟩ := exists_append_of_denotes (denotes_listed h 0 1) hwritten
  cases later with
  | nil => cases hlater
  | cons found later =>
    cases hlater with
    | cons hfound _ =>
      obtain ⟨name', rfl, hprintable⟩ := s.exists_name_of_instruction hhead hwords hfound
      exact ⟨name', later.flatMap encode, hprintable, by simp [hbytes]⟩

/-- One more instruction is restorable if all before it are. -/
theorem restorable_next {script : Script} {good rest : List (Nat × Instruction)}
    {entry : Nat × Instruction} (htiles : Tiles script 0 (good ++ entry :: rest))
    (hgood : ∀ entry ∈ good, Restorable script entry)
    (h : assemble (listingText (good ++ entry :: rest)) = .ok script) : Restorable script entry := by
  obtain ⟨founds, stop, rfl, hfounds, hholds, htiles⟩ := htiles.exists_placed hgood
  cases htiles with
  | @next _ next found _ hdecode _ _ =>
    by_cases hcall : ∃ name, found = .syscall name
    · obtain ⟨name, rfl⟩ := hcall
      obtain ⟨name', after, hprintable, hbytes⟩ := exists_call_of_assemble hfounds h
      have hlength : (founds.flatMap encode).length = stop := by
        rw [← hholds.stop_eq, Nat.zero_add]
      have hagain := decodeAt_encode hprintable.encodable hbytes
      -- The script has one host call at this place, so the one shown is the one assembled.
      rw [hlength, hdecode] at hagain
      obtain ⟨⟨rfl⟩, -⟩ := EStateM.Result.ok.inj hagain
      exact .of_holds hprintable ⟨_, after, hbytes, hlength, rfl⟩
    · exact restorable_of_decodeAt hdecode fun name heq => hcall ⟨name, heq⟩

/-- **A listing is assembled into its script exactly if all it shows is restorable.** -/
theorem assemble_listingText_iff {script : Script} {code : List (Nat × Instruction)}
    (htiles : Tiles script 0 code) :
    assemble (listingText code) = .ok script ↔ ∀ entry ∈ code, Restorable script entry := by
  constructor
  · intro h
    have hgeneral : ∀ rest good, code = good ++ rest → (∀ entry ∈ good, Restorable script entry) →
        ∀ entry ∈ rest, Restorable script entry := by
      intro rest
      induction rest with
      | nil => simp
      | cons entry rest ih =>
        intro good hcode hgood
        have hentry := restorable_next (hcode ▸ htiles) hgood (hcode ▸ h)
        rw [List.forall_mem_cons]
        refine ⟨hentry, ih (good ++ [entry]) (by simp [hcode]) fun other hother => ?_⟩
        rw [List.mem_append, List.mem_singleton] at hother
        rcases hother with hother | rfl
        · exact hgood other hother
        · exact hentry
    exact hgeneral code [] rfl (by simp)
  · intro h
    rw [← List.append_nil code] at htiles
    obtain ⟨founds, stop, rfl, hfounds, hholds, hend⟩ := htiles.exists_placed h
    cases hend
    have hbytes : script.bytes = founds.flatMap encode := by
      have hdrop := hholds.drop_eq
      rwa [List.drop_zero, ← Script.length_bytes, List.drop_length, List.append_nil] at hdrop
    rw [assemble_listingText hfounds, ← hbytes]
    rfl

/-- **Which scripts their listing restores.** Whatever a listing shows tiles its script. The listing
is assembled into the script again exactly if each host call has the length of its name in the one
byte behind the opcode, and a name that can be written between double quotes on a line. -/
theorem listing_restores_iff {script : Script} {text : String} (h : listing script = .ok text) :
    ∃ code : List (Nat × Instruction), Tiles script 0 code ∧ text = listingText code ∧
      (assemble text = .ok script ↔ ∀ offset name, (offset, .syscall name) ∈ code →
        script.bytes[offset + 1]? = some (UInt8.ofNat name.length) ∧
          (Instruction.syscall name).Printable) := by
  obtain ⟨code, htiles, rfl⟩ := listing_eq_ok_iff.mp h
  exact ⟨code, htiles, rfl, (assemble_listingText_iff htiles).trans htiles.restorable_iff⟩

/-- A host call with the length of its name in one byte. -/
def narrowCall : Script := .ofBytes [0x68, 1, 65]

/-- The same host call with the length of its name in a wide form. -/
def wideCall : Script := .ofBytes [0x68, 0xfd, 1, 0, 65]

/-- The listing of both. -/
def callListing : String := "0000: SYSCALL \"A\"\n"

theorem callListing_eq : callListing = listingText (placed 0 [.syscall [65]]) := by
  decide +kernel

theorem printable_call : (Instruction.syscall [65]).Printable := by
  have hname : IsCallName "A" := ⟨by simp, by simp, by decide +kernel⟩
  exact printable_of_isCallName hname (by decide) (by decide)

theorem listing_restores_iff_narrowCall :
    listing narrowCall = .ok callListing ∧ assemble callListing = .ok narrowCall := by
  have hnarrow : Tiles narrowCall 0 (placed 0 [.syscall [65]]) := .next rfl (by decide) .done
  have hlisting := listing_eq_ok_iff.mpr ⟨_, hnarrow, callListing_eq⟩
  obtain ⟨code, htiles, -, hiff⟩ := listing_restores_iff hlisting
  refine ⟨hlisting, hiff.mpr fun offset name hmem => ?_⟩
  rw [htiles.unique hnarrow] at hmem
  cases List.mem_singleton.mp hmem
  exact ⟨rfl, printable_call⟩

/-- **A listing may be assembled into another script than its own.** -/
theorem assemble_listing_wideCall :
    listing wideCall = .ok callListing ∧ assemble callListing = .ok narrowCall ∧
      narrowCall ≠ wideCall := by
  have hwide : Tiles wideCall 0 (placed 0 [.syscall [65]]) := .next rfl (by decide) .done
  refine ⟨listing_eq_ok_iff.mpr ⟨_, hwide, callListing_eq⟩, ?_, by decide⟩
  rw [callListing_eq, assemble_listingText (List.forall_mem_singleton.mpr printable_call)]
  rfl

end Assembly

end StackScript
