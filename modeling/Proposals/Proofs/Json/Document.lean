import Proposals.Proofs.Fault
import Proposals.Proofs.Json.Text
import Proposals.Proofs.Number.Digits

/-!
# `Proofs.Json.Document` — documents are read back as they were printed

A value is printed if all its parts have a JSON form (`IsPrintable`, `exists_document_iff`). It is read
back as it was (`read_document`) if, beyond that, its integers are not too long for the reader, its
objects have each key once, and it has no floating point numbers (`IsDocument`): those are printed in
decimal, and reading rounds.

The proof follows the printer. What is printed opens with a character that is neither blank nor closes a
list, and is followed by a comma, a line break or nothing, so the reader knows where it ends. Each part
is shorter than the whole, so the bound on the steps of the reader is never reached.
-/

namespace Proposals

/-! ## Values with a JSON form -/

namespace Value

mutual
/-- All parts of the value have a JSON form. -/
def IsPrintable : Value → Prop
  | .null => True
  | .bool _ => True
  | .int _ => True
  | .float _ => True
  | .text _ => True
  | .list items => ArePrintable items
  | .dict entries => AreEntriesPrintable entries
  | _ => False

/-- The same for each item of a list. -/
def ArePrintable : List Value → Prop
  | [] => True
  | v :: vs => IsPrintable v ∧ ArePrintable vs

/-- The same for the value of each entry. -/
def AreEntriesPrintable : List (String × Value) → Prop
  | [] => True
  | (_, v) :: entries => IsPrintable v ∧ AreEntriesPrintable entries
end

mutual
/-- The value has a JSON form that is read back as it. -/
def IsDocument : Value → Prop
  | .null => True
  | .bool _ => True
  | .int n => n.natAbs < Number.tenTo Number.maxDigits
  | .text _ => True
  | .list items => AreDocuments items
  | .dict entries => (entries.map Prod.fst).Nodup ∧ AreEntriesDocuments entries
  | _ => False

/-- The same for each item of a list. -/
def AreDocuments : List Value → Prop
  | [] => True
  | v :: vs => IsDocument v ∧ AreDocuments vs

/-- The same for the value of each entry. -/
def AreEntriesDocuments : List (String × Value) → Prop
  | [] => True
  | (_, v) :: entries => IsDocument v ∧ AreEntriesDocuments entries
end

theorem arePrintable_iff {vs : List Value} : ArePrintable vs ↔ ∀ v ∈ vs, v.IsPrintable := by
  induction vs with
  | nil => simp [ArePrintable]
  | cons v vs ih => rw [ArePrintable, ih, List.forall_mem_cons]

theorem areEntriesPrintable_iff {entries : List (String × Value)} :
    AreEntriesPrintable entries ↔ ∀ entry ∈ entries, entry.2.IsPrintable := by
  induction entries with
  | nil => simp [AreEntriesPrintable]
  | cons entry entries ih => rw [AreEntriesPrintable, ih, List.forall_mem_cons]

/-- Documents that can be printed exactly under some condition each, can be printed together if all
    conditions hold. -/
theorem arePrintable_iff_of_forall₂ {α : Type} {P : α → Prop} {xs : List α} {ds : List Value}
    (h : List.Forall₂ (fun x d => d.IsPrintable ↔ P x) xs ds) :
    ArePrintable ds ↔ ∀ x ∈ xs, P x := by
  induction h with
  | nil => exact iff_of_true trivial (List.forall_mem_nil _)
  | cons hhead _ ih => rw [ArePrintable, List.forall_mem_cons, hhead, ih]

theorem areDocuments_iff {vs : List Value} : AreDocuments vs ↔ ∀ v ∈ vs, v.IsDocument := by
  induction vs with
  | nil => simp [AreDocuments]
  | cons v vs ih => rw [AreDocuments, ih, List.forall_mem_cons]

theorem areEntriesDocuments_iff {entries : List (String × Value)} :
    AreEntriesDocuments entries ↔ ∀ entry ∈ entries, entry.2.IsDocument := by
  induction entries with
  | nil => simp [AreEntriesDocuments]
  | cons entry entries ih => rw [AreEntriesDocuments, ih, List.forall_mem_cons]

mutual
theorem IsDocument.isPrintable : {v : Value} → v.IsDocument → v.IsPrintable
  | .null, _ | .bool _, _ | .int _, _ | .text _, _ => trivial
  | .list _, h => AreDocuments.arePrintable h
  | .dict _, h => AreEntriesDocuments.arePrintable h.2

theorem AreDocuments.arePrintable : {vs : List Value} → AreDocuments vs → ArePrintable vs
  | [], _ => trivial
  | _ :: _, h => ⟨IsDocument.isPrintable h.1, AreDocuments.arePrintable h.2⟩

theorem AreEntriesDocuments.arePrintable : {entries : List (String × Value)} →
    AreEntriesDocuments entries → AreEntriesPrintable entries
  | [], _ => trivial
  | (_, _) :: _, h => ⟨IsDocument.isPrintable h.1, AreEntriesDocuments.arePrintable h.2⟩
end

/-- If the value is printed at all, it is read back from what is printed. -/
def IsLossless (v : Value) : Prop := v.IsPrintable → v.IsDocument

theorem isLossless_text (s : String) : (text s).IsLossless := fun _ => trivial

theorem isLossless_list {vs : List Value} (h : ∀ v ∈ vs, v.IsLossless) : (list vs).IsLossless :=
  fun hprint => areDocuments_iff.mpr fun v hv => h v hv (arePrintable_iff.mp hprint v hv)

theorem isLossless_dict {entries : List (String × Value)} (hkeys : (entries.map Prod.fst).Nodup)
    (h : ∀ entry ∈ entries, entry.2.IsLossless) : (dict entries).IsLossless := fun hprint =>
  ⟨hkeys, areEntriesDocuments_iff.mpr fun entry hentry =>
    h entry hentry (areEntriesPrintable_iff.mp hprint entry hentry)⟩

end Value

namespace Json

open Text Number Outcome

/-! ## Printing -/

mutual
/-- **A value is printed exactly if all its parts have a JSON form.** -/
theorem exists_printAt_iff (level : Nat) : (v : Value) →
    (∃ cs, printAt level v = .ok cs) ↔ v.IsPrintable
  | .null | .bool _ | .int _ | .float _ | .text _ => ⟨fun _ => trivial, fun _ => ⟨_, rfl⟩⟩
  | .decimal _ | .bytes _ | .currency _ | .foreign =>
    ⟨fun ⟨_, h⟩ => absurd h (by simp [printAt]), False.elim⟩
  | .list items => by
    rw [Value.IsPrintable, ← exists_printItems_iff (level + 1) items, printAt]
    simp only [map_eq_ok]
    exact ⟨fun ⟨_, pieces, h, _⟩ => ⟨pieces, h⟩, fun ⟨pieces, h⟩ => ⟨_, pieces, h, rfl⟩⟩
  | .dict entries => by
    rw [Value.IsPrintable, ← exists_printEntries_iff (level + 1) entries, printAt]
    simp only [map_eq_ok]
    exact ⟨fun ⟨_, pieces, h, _⟩ => ⟨pieces, h⟩, fun ⟨pieces, h⟩ => ⟨_, pieces, h, rfl⟩⟩

theorem exists_printItems_iff (level : Nat) : (vs : List Value) →
    (∃ pieces, printItems level vs = .ok pieces) ↔ Value.ArePrintable vs
  | [] => ⟨fun _ => trivial, fun _ => ⟨[], rfl⟩⟩
  | v :: vs => by
    rw [Value.ArePrintable, ← exists_printAt_iff level v, ← exists_printItems_iff level vs, printItems]
    simp only [bind_eq_ok, pure_eq_ok]
    exact ⟨fun ⟨_, p, hp, ps, hps, _⟩ => ⟨⟨p, hp⟩, ps, hps⟩,
      fun ⟨⟨p, hp⟩, ps, hps⟩ => ⟨_, p, hp, ps, hps, rfl⟩⟩

theorem exists_printEntries_iff (level : Nat) : (entries : List (String × Value)) →
    (∃ pieces, printEntries level entries = .ok pieces) ↔ Value.AreEntriesPrintable entries
  | [] => ⟨fun _ => trivial, fun _ => ⟨[], rfl⟩⟩
  | (key, v) :: entries => by
    rw [Value.AreEntriesPrintable, ← exists_printAt_iff level v,
      ← exists_printEntries_iff level entries, printEntries]
    simp only [bind_eq_ok, pure_eq_ok]
    exact ⟨fun ⟨_, p, hp, ps, hps, _⟩ => ⟨⟨p, hp⟩, ps, hps⟩,
      fun ⟨⟨p, hp⟩, ps, hps⟩ => ⟨_, p, hp, ps, hps, rfl⟩⟩
end

theorem exists_document_iff {v : Value} : (∃ text, document v = .ok text) ↔ v.IsPrintable := by
  rw [← exists_printAt_iff 0 v]
  unfold document
  simp only [map_eq_ok]
  exact ⟨fun ⟨_, cs, h, _⟩ => ⟨cs, h⟩, fun ⟨cs, h⟩ => ⟨_, cs, h, rfl⟩⟩

mutual
/-- The one fault of printing is a part of the wrong kind. -/
theorem within_printAt (level : Nat) : (v : Value) → Within (· = .data .wrongKind) (printAt level v)
  | .null | .bool _ | .int _ | .float _ | .text _ => within_ok _ _
  | .decimal _ | .bytes _ | .currency _ | .foreign => within_error.mpr rfl
  | .list items => (within_printItems (level + 1) items).map _
  | .dict entries => (within_printEntries (level + 1) entries).map _

theorem within_printItems (level : Nat) :
    (vs : List Value) → Within (· = .data .wrongKind) (printItems level vs)
  | [] => within_ok _ _
  | v :: vs => (within_printAt level v).bind fun _ _ =>
      (within_printItems level vs).bind fun _ _ => within_ok _ _

theorem within_printEntries (level : Nat) :
    (entries : List (String × Value)) → Within (· = .data .wrongKind) (printEntries level entries)
  | [] => within_ok _ _
  | (_, v) :: entries => (within_printAt level v).bind fun _ _ =>
      (within_printEntries level entries).bind fun _ _ => within_ok _ _
end

/-- **A value is printed, or a part of it has no JSON form** and that is reported. -/
theorem document_cases (v : Value) : (v.IsPrintable ∧ ∃ text, document v = .ok text) ∨
    ¬ v.IsPrintable ∧ document v = .error (.data .wrongKind) := by
  rcases ((within_printAt 0 v).map String.ofList).cases with hprinted | ⟨fault, hfault, rfl⟩
  · exact .inl ⟨exists_document_iff.mp hprinted, hprinted⟩
  · refine .inr ⟨fun h => ?_, hfault⟩
    obtain ⟨text, htext⟩ := exists_document_iff.mpr h
    exact absurd (htext.symm.trans hfault) nofun

/-! ## Blanks and ends -/

theorem skip_cons {c : Char} (h : isSpace c = false) (cs : List Char) : skip (c :: cs) = c :: cs := by
  unfold skip
  rw [List.dropWhile_cons, h]
  rfl

/-- A line break and blanks are skipped. -/
theorem skip_newLine (level : Nat) (cs : List Char) : skip (newLine level ++ cs) = skip cs := by
  have hblanks : ∀ n, skip (List.replicate n ' ' ++ cs) = skip cs := by
    intro n
    induction n with
    | zero => rfl
    | succ n ih => rw [List.replicate_succ, List.cons_append]; exact ih
  exact hblanks (2 * level)

/-- What may follow a value: a comma, a line break or nothing. -/
def IsBehind (rest : List Char) : Prop :=
  rest = [] ∨ ∃ tail, rest = ',' :: tail ∨ rest = '\n' :: tail

theorem isBehind_newLine (level : Nat) (rest : List Char) : IsBehind (newLine level ++ rest) :=
  .inr ⟨_, .inr rfl⟩

theorem isBehind_comma (rest : List Char) : IsBehind (',' :: rest) := .inr ⟨rest, .inl rfl⟩

/-! ## Integers -/

theorem takeWhole?_natText (n : Nat) {rest : List Char}
    (hrest : ∀ c, rest.head? = some c → isAsciiDigit c = false) :
    takeWhole? (natText n ++ rest) = some (natText n, rest) := by
  by_cases hn : n = 0
  · subst hn
    rfl
  · obtain ⟨htake, hdrop⟩ := takeWhile_dropWhile_append
      (fun c hc => isAsciiDigit_of_mem_natText (n := n) hc) hrest
    have hdigits : takeDigits? (natText n ++ rest) = some (natText n, rest) := by
      unfold takeDigits?
      rw [htake, hdrop]
      exact if_neg (by rw [List.isEmpty_iff]; exact natText_ne_nil n)
    have hhead : (natText n ++ rest).head? ≠ some '0' := by
      rw [List.head?_append_of_ne_nil _ (natText_ne_nil n)]
      exact head?_natText_ne_zero (Nat.pos_of_ne_zero hn)
    unfold takeWhole?
    split
    · next h => exact absurd (by rw [h]; rfl) hhead
    · exact hdigits

theorem takeFraction_of_isBehind {rest : List Char} (h : IsBehind rest) :
    takeFraction rest = (none, rest) := by
  rcases h with rfl | ⟨tail, rfl | rfl⟩ <;> rfl

theorem takeExponent_of_isBehind {rest : List Char} (h : IsBehind rest) :
    takeExponent rest = (none, rest) := by
  rcases h with rfl | ⟨tail, rfl | rfl⟩ <;> rfl

theorem not_isAsciiDigit_of_isBehind {rest : List Char} (h : IsBehind rest) {c : Char}
    (hc : rest.head? = some c) : isAsciiDigit c = false := by
  rcases h with rfl | ⟨tail, rfl | rfl⟩
  · exact absurd hc (by simp)
  · cases hc; decide
  · cases hc; decide

theorem readNumber_intText {n : Int} (h : n.natAbs < tenTo maxDigits) {rest : List Char}
    (hrest : IsBehind rest) : readNumber (intText n ++ rest) = .ok (.int n, rest) := by
  have hshort : ¬ maxDigits < (natText n.natAbs).length :=
    Nat.not_lt.mpr ((length_natText_le_iff (by decide)).mpr h)
  have hwhole := fun m => takeWhole?_natText m fun c hc => not_isAsciiDigit_of_isBehind hrest hc
  cases n with
  | ofNat n =>
    have hsign : ∀ tail, intText (.ofNat n) ++ rest ≠ '-' :: tail := by
      intro tail heq
      obtain ⟨c, cs, hcs⟩ := List.exists_cons_of_ne_nil (natText_ne_nil n)
      have hc := isAsciiDigit_of_mem_natText (n := n) (c := c) (by rw [hcs]; simp)
      rw [show intText (.ofNat n) = natText n from rfl, hcs] at heq
      rw [(List.cons.inj heq).1] at hc
      exact absurd hc (by decide)
    unfold readNumber
    split
    next negative body hbody =>
    split at hbody
    · next tail htail => exact absurd htail (hsign tail)
    · cases hbody
      rw [show intText (.ofNat n) = natText n from rfl, hwhole n]
      simp only [takeFraction_of_isBehind hrest, takeExponent_of_isBehind hrest, Option.isNone_none,
        Bool.and_self, if_true]
      rw [asciiNumber_natText]
      exact if_neg hshort
  | negSucc n =>
    have hnumber : (-(((n + 1 : Nat)) : Int)) = Int.negSucc n := rfl
    unfold readNumber
    rw [show intText (.negSucc n) ++ rest = '-' :: (natText (n + 1) ++ rest) from rfl]
    simp only [hwhole, takeFraction_of_isBehind hrest, takeExponent_of_isBehind hrest,
      Option.isNone_none, Bool.and_self, if_true, asciiNumber_natText, hnumber]
    exact if_neg hshort

/-- No word that stands for a value begins like an integer. -/
theorem find?_namedValues {cs : List Char} {c : Char} (hc : isAsciiDigit c = true)
    (h : cs.head? = some c ∨ ∃ tail, cs = '-' :: c :: tail) :
    namedValues.find? (fun (name, _) => name.toList.isPrefixOf cs) = none := by
  have hnames : ∀ entry ∈ namedValues, ∃ d ds, entry.1.toList = d :: ds ∧ isAsciiDigit d = false ∧
      (d = '-' → ds.head? = some 'I') := by
    intro entry hentry
    simp only [namedValues, List.mem_cons, List.not_mem_nil, or_false] at hentry
    rcases hentry with rfl | rfl | rfl | rfl | rfl | rfl <;>
      exact ⟨_, _, rfl, by decide, by decide⟩
  refine List.find?_eq_none.mpr fun entry hentry hprefix => ?_
  obtain ⟨d, ds, hname, hd, hminus⟩ := hnames entry hentry
  obtain ⟨behind, hbehind⟩ := List.isPrefixOf_iff_prefix.mp hprefix
  rw [hname] at hbehind
  rcases h with h | ⟨tail, rfl⟩
  · rw [← hbehind] at h
    cases h
    exact absurd hd (by rw [hc]; simp)
  · obtain ⟨rfl, hrest⟩ := List.cons.inj hbehind
    have hhead := hminus rfl
    obtain ⟨more, rfl⟩ := List.head?_eq_some_iff.mp hhead
    rw [(List.cons.inj hrest).1.symm] at hc
    exact absurd hc (by decide)

theorem readSimple_intText {n : Int} (h : n.natAbs < tenTo maxDigits) {rest : List Char}
    (hrest : IsBehind rest) : readSimple (intText n ++ rest) = .ok (.int n, rest) := by
  have hdigit : ∀ m : Nat, ∃ c cs, natText m = c :: cs ∧ isAsciiDigit c = true := fun m => by
    obtain ⟨c, cs, hcs⟩ := List.exists_cons_of_ne_nil (natText_ne_nil m)
    exact ⟨c, cs, hcs, isAsciiDigit_of_mem_natText (n := m) (by rw [hcs]; simp)⟩
  have hnone : namedValues.find? (fun (name, _) => name.toList.isPrefixOf (intText n ++ rest)) =
      none := by
    cases n with
    | ofNat n =>
      obtain ⟨c, cs, hcs, hc⟩ := hdigit n
      refine find?_namedValues hc (.inl ?_)
      rw [show intText (.ofNat n) = natText n from rfl, hcs]
      rfl
    | negSucc n =>
      obtain ⟨c, cs, hcs, hc⟩ := hdigit (n + 1)
      refine find?_namedValues hc (.inr ⟨cs ++ rest, ?_⟩)
      rw [show intText (.negSucc n) = '-' :: natText (n + 1) from rfl, hcs]
      rfl
  unfold readSimple
  rw [hnone]
  exact readNumber_intText h hrest

/-! ## Values -/

/-- A character that a value may open with: neither blank nor a closing bracket. -/
def IsOpening (c : Char) : Prop := isSpace c = false ∧ c ≠ ']'

theorem isOpening_intText (n : Int) : ∃ c tail, intText n = c :: tail ∧ IsOpening c ∧
    (c == doubleQuote) = false ∧ (c == '[') = false ∧ (c.toNat == 0x7b) = false := by
  have hdigit : ∀ {c : Char}, isAsciiDigit c = true → IsOpening c ∧
      (c == doubleQuote) = false ∧ (c == '[') = false ∧ (c.toNat == 0x7b) = false := fun {c} hc =>
    of_toNat_lt_128 (p := fun c => isAsciiDigit c = true → (isSpace c = false ∧ c ≠ ']') ∧
      (c == doubleQuote) = false ∧ (c == '[') = false ∧ (c.toNat == 0x7b) = false)
      (by decide) (toNat_lt_of_isAsciiDigit hc) hc
  cases n with
  | ofNat n =>
    obtain ⟨c, cs, hcs⟩ := List.exists_cons_of_ne_nil (natText_ne_nil n)
    exact ⟨c, cs, hcs, hdigit (isAsciiDigit_of_mem_natText (n := n) (by rw [hcs]; simp))⟩
  | negSucc n => exact ⟨'-', natText (n + 1), rfl, ⟨by decide, by decide⟩, by decide⟩

/-- The brackets stand around a first piece and what follows it. -/
theorem block_cons (level : Nat) (opening closing : Char) (piece : List Char)
    (pieces : List (List Char)) (rest : List Char) :
    block level opening closing (piece :: pieces) ++ rest =
      opening :: (newLine (level + 1) ++
        (lines (level + 1) (piece :: pieces) ++ (newLine level ++ closing :: rest))) := by
  simp [block]

theorem head?_lines (level : Nat) {piece : List Char} (hne : piece ≠ []) (pieces : List (List Char))
    (rest : List Char) : (lines level (piece :: pieces) ++ rest).head? = piece.head? := by
  cases pieces with
  | nil => exact List.head?_append_of_ne_nil _ hne
  | cons next pieces =>
    show (piece ++ ',' :: newLine level ++ lines level (next :: pieces) ++ rest).head? = _
    rw [List.append_assoc, List.append_assoc, List.head?_append_of_ne_nil _ hne]

/-- What is printed for a document opens in order. -/
theorem exists_isOpening {level : Nat} {v : Value} {cs : List Char} (h : printAt level v = .ok cs)
    (hv : v.IsDocument) : ∃ c, cs.head? = some c ∧ IsOpening c := by
  cases v with
  | null => cases h; exact ⟨_, rfl, by decide, by decide⟩
  | bool b => cases b <;> cases h <;> exact ⟨_, rfl, by decide, by decide⟩
  | int n =>
    cases h
    obtain ⟨c, tail, hcs, hc, -⟩ := isOpening_intText n
    exact ⟨c, by rw [hcs]; rfl, hc⟩
  | text s => cases h; exact ⟨_, rfl, by decide, by decide⟩
  | list items =>
    rw [printAt] at h
    obtain ⟨pieces, -, rfl⟩ := map_eq_ok.mp h
    cases pieces <;> exact ⟨_, rfl, by decide, by decide⟩
  | dict entries =>
    rw [printAt] at h
    obtain ⟨pieces, -, rfl⟩ := map_eq_ok.mp h
    cases pieces <;> exact ⟨_, rfl, by decide, by decide⟩
  | _ => exact hv.elim

/-- An entry opens with the quote of its key. -/
theorem head?_entry (key : String) (piece : List Char) :
    (quotedText key ++ ':' :: ' ' :: piece).head? = some doubleQuote := rfl

theorem length_lines_cons (level : Nat) (piece next : List Char) (pieces : List (List Char)) :
    (lines level (piece :: next :: pieces)).length =
      piece.length + (2 * level + 2) + (lines level (next :: pieces)).length := by
  simp [lines, newLine]
  omega

theorem insert_of_not_mem {key : String} {v : Value} {entries : List (String × Value)}
    (h : key ∉ entries.map Prod.fst) : Table.insert key v entries = entries ++ [(key, v)] := by
  induction entries with
  | nil => rfl
  | cons entry entries ih =>
    obtain ⟨k, w⟩ := entry
    rw [List.map_cons, List.mem_cons, not_or] at h
    rw [Table.insert, if_neg (Ne.symm h.1), ih h.2]
    rfl

/-- Reading a list or an object goes on behind the blanks in front of its first part. -/
theorem skip_lines {piece : List Char} {c : Char} (hpiece : piece.head? = some c)
    (hc : isSpace c = false) (level : Nat) (pieces : List (List Char)) (rest : List Char) :
    ∃ more, skip (newLine level ++ (lines level (piece :: pieces) ++ rest)) = c :: more ∧
      lines level (piece :: pieces) ++ rest = c :: more := by
  have hne : piece ≠ [] := by
    rintro rfl
    exact absurd hpiece (by simp)
  have hhead := head?_lines level hne pieces rest
  obtain ⟨more, hmore⟩ := List.head?_eq_some_iff.mp (hhead.trans hpiece)
  refine ⟨more, ?_, hmore⟩
  rw [skip_newLine, hmore]
  exact skip_cons hc more

/-- A comma divides the first piece from the others. -/
theorem lines_cons_append (level : Nat) (piece next : List Char) (pieces : List (List Char))
    (rest : List Char) : lines level (piece :: next :: pieces) ++ rest =
      piece ++ ',' :: (newLine level ++ (lines level (next :: pieces) ++ rest)) := by
  simp [lines]

/-! ## Steps of the reader -/

theorem readValue_list {cs more : List Char} {c : Char} (fuel : Nat) (hskip : skip cs = c :: more)
    (hc : c ≠ ']') : readValue (fuel + 1) ('[' :: cs) =
      readItems fuel (c :: more) >>= fun (vs, rest) => .ok (.list vs, rest) := by
  have hquote : ('[' == doubleQuote) = false := by decide
  simp only [readValue, hquote, hskip, beq_self_eq_true, Bool.false_eq_true, if_false, if_true]
  split
  · next rest hrest => exact absurd (List.cons.inj hrest).1 hc
  · rfl

theorem readValue_dict {cs more : List Char} (fuel : Nat) (hskip : skip cs = doubleQuote :: more) :
    readValue (fuel + 1) (Char.ofNat 0x7b :: cs) =
      readEntries fuel [] (doubleQuote :: more) >>=
        fun (entries, rest) => .ok (.dict entries, rest) := by
  rw [readValue]
  simp only [hskip]
  rfl

theorem readItems_comma {cs rest more : List Char} {v : Value} {fuel : Nat}
    (hv : readValue fuel cs = .ok (v, rest)) (hrest : skip rest = ',' :: more) :
    readItems (fuel + 1) cs =
      readItems fuel (skip more) >>= fun (vs, rest) => .ok (v :: vs, rest) := by
  rw [readItems, hv, ok_bind]
  simp only [hrest]
  rfl

theorem readItems_last {cs rest more : List Char} {v : Value} {fuel : Nat}
    (hv : readValue fuel cs = .ok (v, rest)) (hrest : skip rest = ']' :: more) :
    readItems (fuel + 1) cs = .ok ([v], more) := by
  rw [readItems, hv, ok_bind]
  simp only [hrest]
  rfl

section Entries

variable {before : List (String × Value)} {key : String} {v : Value} {cs behind rest more : List Char}
  {fuel : Nat}

theorem readEntries_comma (hkey : readText cs = .ok (key.toList, ':' :: ' ' :: behind))
    (hskip : skip (' ' :: behind) = behind) (hv : readValue fuel behind = .ok (v, rest))
    (hrest : skip rest = ',' :: more) :
    readEntries (fuel + 1) before (doubleQuote :: cs) =
      readEntries fuel (Table.insert key v before) (skip more) := by
  have hcolon : skip (':' :: ' ' :: behind) = ':' :: ' ' :: behind := skip_cons (by decide) _
  have hquote : (doubleQuote != doubleQuote) = false := by decide
  rw [readEntries]
  simp only [hquote, Bool.false_eq_true, if_false, hkey, ok_bind, hcolon, hskip, hv, hrest,
    String.ofList_toList]

theorem readEntries_last (hkey : readText cs = .ok (key.toList, ':' :: ' ' :: behind))
    (hskip : skip (' ' :: behind) = behind) (hv : readValue fuel behind = .ok (v, rest))
    (hrest : skip rest = Char.ofNat 0x7d :: more) :
    readEntries (fuel + 1) before (doubleQuote :: cs) = .ok (Table.insert key v before, more) := by
  have hcolon : skip (':' :: ' ' :: behind) = ':' :: ' ' :: behind := skip_cons (by decide) _
  have hquote : (doubleQuote != doubleQuote) = false := by decide
  rw [readEntries]
  simp only [hquote, Bool.false_eq_true, if_false, hkey, ok_bind, hcolon, hskip, hv, hrest,
    String.ofList_toList]
  rfl

end Entries

theorem key_not_mem {key : String} {v : Value} {before entries : List (String × Value)}
    (h : ((before ++ (key, v) :: entries).map Prod.fst).Nodup) : key ∉ before.map Prod.fst := by
  rw [List.map_append, List.map_cons] at h
  exact fun hmem => (List.nodup_append.mp h).2.2 key hmem key List.mem_cons_self rfl

/-- The blank behind a colon is skipped. -/
theorem skip_value {level : Nat} {v : Value} {cs : List Char} (h : printAt level v = .ok cs)
    (hv : v.IsDocument) (rest : List Char) : skip (' ' :: (cs ++ rest)) = cs ++ rest := by
  obtain ⟨c, hhead, hc⟩ := exists_isOpening h hv
  obtain ⟨tail, rfl⟩ := List.head?_eq_some_iff.mp hhead
  exact skip_cons hc.1 (tail ++ rest)

/-! ## Reading back -/

mutual
/-- **A document is read back** from what is printed for it, whatever follows. -/
theorem readValue_printAt : (v : Value) → v.IsDocument → (level : Nat) → (cs : List Char) →
    printAt level v = .ok cs → (fuel : Nat) → cs.length < fuel → (rest : List Char) →
    IsBehind rest → readValue fuel (cs ++ rest) = .ok (v, rest)
  | .null, _, _, _, h, _ + 1, _, rest, _ => by cases h; rfl
  | .bool b, _, _, _, h, _ + 1, _, rest, _ => by cases b <;> cases h <;> rfl
  | .int n, hv, _, _, h, _ + 1, _, rest, hrest => by
    cases h
    obtain ⟨c, tail, hcs, -, hquote, hlist, hobject⟩ := isOpening_intText n
    have hsimple := readSimple_intText hv hrest
    rw [hcs] at hsimple ⊢
    rw [List.cons_append] at hsimple ⊢
    simp only [readValue, hquote, hlist, hobject, Bool.false_eq_true, if_false]
    exact hsimple
  | .text s, _, _, _, h, _ + 1, _, rest, _ => by
    cases h
    obtain ⟨behind, hcs, hread⟩ := readText_quotedText s rest
    rw [hcs]
    simp only [readValue, beq_self_eq_true, if_true, hread, ok_bind, String.ofList_toList]
    rfl
  | .list [], _, _, _, h, _ + 1, _, rest, _ => by cases h; rfl
  | .list (v :: vs), hv, level, _, h, fuel + 1, hfuel, rest, _ => by
    rw [printAt] at h
    obtain ⟨pieces, hpieces, rfl⟩ := map_eq_ok.mp h
    obtain ⟨p, hp, hps⟩ := bind_eq_ok.mp hpieces
    obtain ⟨ps, -, hps⟩ := bind_eq_ok.mp hps
    cases hps
    obtain ⟨c, hhead, hc⟩ := exists_isOpening hp hv.1
    have hlength := congrArg List.length (block_cons level '[' ']' p ps [])
    simp only [List.append_nil, List.length_cons, List.length_append] at hlength
    have hitems := readItems_printItems (v :: vs) (by simp) hv (level + 1) _ hpieces fuel (by omega)
      level rest
    obtain ⟨more, hskip, hmore⟩ := skip_lines hhead hc.1 (level + 1) ps (newLine level ++ ']' :: rest)
    rw [hmore] at hitems
    rw [block_cons, readValue_list fuel hskip hc.2, hitems]
    rfl
  | .dict [], _, _, _, h, _ + 1, _, rest, _ => by cases h; rfl
  | .dict ((key, v) :: entries), hv, level, _, h, fuel + 1, hfuel, rest, _ => by
    rw [printAt] at h
    obtain ⟨pieces, hpieces, rfl⟩ := map_eq_ok.mp h
    obtain ⟨p, -, hps⟩ := bind_eq_ok.mp hpieces
    obtain ⟨ps, -, hps⟩ := bind_eq_ok.mp hps
    cases hps
    have hlength := congrArg List.length
      (block_cons level (Char.ofNat 0x7b) (Char.ofNat 0x7d) (quotedText key ++ ':' :: ' ' :: p) ps [])
    simp only [List.append_nil, List.length_cons, List.length_append] at hlength
    have hentries := readEntries_printEntries ((key, v) :: entries) (by simp) hv.2 (level + 1) _ hpieces
      [] hv.1 fuel (by omega) level rest
    obtain ⟨more, hskip, hmore⟩ := skip_lines (head?_entry key p) (by decide) (level + 1) ps
      (newLine level ++ Char.ofNat 0x7d :: rest)
    rw [hmore] at hentries
    rw [block_cons, readValue_dict fuel hskip, hentries]
    rfl

theorem readItems_printItems : (vs : List Value) → vs ≠ [] → Value.AreDocuments vs →
    (level : Nat) → (pieces : List (List Char)) → printItems level vs = .ok pieces →
    (fuel : Nat) → (lines level pieces).length + 1 < fuel → (level' : Nat) → (rest : List Char) →
    readItems fuel (lines level pieces ++ (newLine level' ++ ']' :: rest)) = .ok (vs, rest)
  | [v], _, hvs, level, pieces, h, fuel + 1, hfuel, level', rest => by
    obtain ⟨p, hp, h⟩ := bind_eq_ok.mp h
    obtain ⟨ps, hps, h⟩ := bind_eq_ok.mp h
    cases h
    cases hps
    rw [lines] at hfuel ⊢
    exact readItems_last
      (readValue_printAt v hvs.1 level p hp fuel (by omega) _ (isBehind_newLine _ _))
      (skip_newLine level' _)
  | v :: w :: ws, _, hvs, level, pieces, h, fuel + 1, hfuel, level', rest => by
    obtain ⟨p, hp, h⟩ := bind_eq_ok.mp h
    obtain ⟨ps, hps, h⟩ := bind_eq_ok.mp h
    cases h
    obtain ⟨q, hq, hqs⟩ := bind_eq_ok.mp hps
    obtain ⟨qs, -, hqs⟩ := bind_eq_ok.mp hqs
    cases hqs
    rw [length_lines_cons] at hfuel
    have hrest := readItems_printItems (w :: ws) (by simp) hvs.2 level _ hps fuel (by omega) level' rest
    obtain ⟨c, hhead, hc⟩ := exists_isOpening hq hvs.2.1
    obtain ⟨more, hskip, hmore⟩ := skip_lines hhead hc.1 level qs (newLine level' ++ ']' :: rest)
    rw [hmore] at hrest
    rw [lines_cons_append, readItems_comma
      (readValue_printAt v hvs.1 level p hp fuel (by omega) _ (isBehind_comma _))
      (skip_cons (by decide) _), hskip, hrest]
    rfl

theorem readEntries_printEntries : (entries : List (String × Value)) → entries ≠ [] →
    Value.AreEntriesDocuments entries → (level : Nat) → (pieces : List (List Char)) →
    printEntries level entries = .ok pieces → (before : List (String × Value)) →
    ((before ++ entries).map Prod.fst).Nodup → (fuel : Nat) →
    (lines level pieces).length + 1 < fuel → (level' : Nat) → (rest : List Char) →
    readEntries fuel before (lines level pieces ++ (newLine level' ++ Char.ofNat 0x7d :: rest)) =
      .ok (before ++ entries, rest)
  | [(key, v)], _, hes, level, pieces, h, before, hkeys, fuel + 1, hfuel, level', rest => by
    obtain ⟨p, hp, h⟩ := bind_eq_ok.mp h
    obtain ⟨ps, hps, h⟩ := bind_eq_ok.mp h
    cases h
    cases hps
    rw [lines, List.length_append, List.length_cons, List.length_cons] at hfuel
    obtain ⟨cs, hcs, hkey⟩ :=
      readText_quotedText key (':' :: ' ' :: (p ++ (newLine level' ++ Char.ofNat 0x7d :: rest)))
    rw [lines, List.append_assoc, List.cons_append, List.cons_append, hcs,
      readEntries_last hkey (skip_value hp hes.1 _)
        (readValue_printAt v hes.1 level p hp fuel (by omega) _ (isBehind_newLine _ _))
        (skip_newLine level' _),
      insert_of_not_mem (key_not_mem hkeys)]
  | (key, v) :: entry :: entries, _, hes, level, pieces, h, before, hkeys, fuel + 1, hfuel, level',
      rest => by
    obtain ⟨p, hp, h⟩ := bind_eq_ok.mp h
    obtain ⟨ps, hps, h⟩ := bind_eq_ok.mp h
    cases h
    obtain ⟨q, -, hqs⟩ := bind_eq_ok.mp hps
    obtain ⟨qs, -, hqs⟩ := bind_eq_ok.mp hqs
    cases hqs
    rw [length_lines_cons, List.length_append, List.length_cons, List.length_cons] at hfuel
    have hrest := readEntries_printEntries (entry :: entries) (by simp) hes.2 level _ hps
      (before ++ [(key, v)]) (by rwa [List.append_assoc]) fuel (by omega) level' rest
    obtain ⟨more, hskip, hmore⟩ := skip_lines (head?_entry entry.1 q) (by decide) level qs
      (newLine level' ++ Char.ofNat 0x7d :: rest)
    rw [hmore] at hrest
    obtain ⟨cs, hcs, hkey⟩ := readText_quotedText key (':' :: ' ' :: (p ++ ',' :: (newLine level ++
      (lines level ((quotedText entry.1 ++ ':' :: ' ' :: q) :: qs) ++
        (newLine level' ++ Char.ofNat 0x7d :: rest)))))
    rw [lines_cons_append, List.append_assoc, List.cons_append, List.cons_append, hcs,
      readEntries_comma hkey (skip_value hp hes.1 _)
        (readValue_printAt v hes.1 level p hp fuel (by omega) _ (isBehind_comma _))
        (skip_cons (by decide) _),
      insert_of_not_mem (key_not_mem hkeys), hskip, hrest, List.append_assoc]
    rfl
end

/-- **A document is read back from its printed form**, with or without a line break at the end. -/
theorem read_document {v : Value} (hv : v.IsDocument) {text : String} (h : document v = .ok text) :
    read text = .ok v ∧ read (text ++ "\n") = .ok v := by
  obtain ⟨cs, hcs, rfl⟩ := map_eq_ok.mp h
  obtain ⟨c, hhead, hc⟩ := exists_isOpening hcs hv
  obtain ⟨tail, rfl⟩ := List.head?_eq_some_iff.mp hhead
  have hread : ∀ {rest : List Char}, IsBehind rest → skip rest = [] →
      readChars (c :: tail ++ rest) = .ok v := by
    intro rest hrest hblank
    have hvalue := readValue_printAt v hv 0 _ hcs (2 * (c :: tail ++ rest).length + 2)
      (by rw [List.length_append]; omega) rest hrest
    have hskip : skip (c :: tail ++ rest) = c :: tail ++ rest := skip_cons hc.1 _
    simp only [readChars, hskip, hvalue, hblank, List.isEmpty_nil, if_true]
  have hplain := hread (.inl rfl) rfl
  rw [List.append_nil] at hplain
  have hbroken : readChars (c :: tail ++ "\n".toList) = .ok v := hread (.inr ⟨[], .inr rfl⟩) rfl
  constructor
  · unfold read
    rw [String.toList_ofList, hplain]
  · unfold read
    rw [String.toList_append, String.toList_ofList, hbroken]

/-- What is printed for an object opens with its bracket. -/
theorem head?_document_dict {entries : List (String × Value)} {text : String}
    (h : document (.dict entries) = .ok text) : text.toList.head? = some (Char.ofNat 0x7b) := by
  obtain ⟨cs, hcs, rfl⟩ := map_eq_ok.mp h
  rw [printAt] at hcs
  obtain ⟨pieces, -, rfl⟩ := map_eq_ok.mp hcs
  rw [String.toList_ofList]
  cases pieces <;> rfl

end Json

end Proposals
