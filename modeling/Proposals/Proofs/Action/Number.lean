import Proposals.Proofs.Action.Unreported
import Proposals.Proofs.Transaction.Number

/-!
# `Proofs.Action.Number` — the numbers of actions that are read

The integers of an action are those of its fields, and for a bundle those of its transactions. They come
from the document like the integers of transactions (`Action.NumbersAre`), so they are those that the
document denotes, unless some of the values are truth values or fractions (`ofDocument_numbers`).
-/

namespace Proposals

open Proposals.Outcome

namespace Action

variable {R S : Value → Int → Prop} {P : Value → Prop} {d : Value} {a : Action} {kind : ActionKind}
  {entries : List (String × Value)}

/-- **The integers of the action come from the document**: those of its fields, or of the transactions of
    a bundle. -/
def NumbersAre (R : Value → Int → Prop) (d : Value) : Action → Prop
  | .customTransaction ts => ∃ ds, d.find? "transactions" = some (.list ds) ∧
    List.Forall₂ (Transaction.NumbersAre R) ds ts
  | a => FieldsAre R d a.fields

/-- Where the action has an integer, the document has a value of which `P` holds. -/
def HoldsNumber (P : Value → Prop) (d : Value) : Action → Prop
  | .customTransaction ts => ∃ ds, d.find? "transactions" = some (.list ds) ∧
    ∃ pair ∈ ds.zip ts, pair.2.HoldsNumber P pair.1
  | a => FieldsHold P d a.fields

theorem forall₂_numbersAre_iff_not (h : ∀ v n, R v n → (S v n ↔ ¬ P v)) {ds : List Value}
    {ts : List Transaction} (hall : List.Forall₂ (Transaction.NumbersAre R) ds ts) :
    List.Forall₂ (Transaction.NumbersAre S) ds ts ↔ ¬ ∃ pair ∈ ds.zip ts, pair.2.HoldsNumber P pair.1 := by
  induction hall with
  | nil => simp
  | cons hhead _ ih =>
    rw [List.forall₂_cons, Transaction.numbersAre_iff_not_holdsNumber h hhead, ih, List.zip_cons_cons]
    simp

/-- **The integers are related in a closer way too, unless `P` holds of one of their values.** -/
theorem numbersAre_iff_not_holdsNumber (h : ∀ v n, R v n → (S v n ↔ ¬ P v)) (ha : a.NumbersAre R d) :
    a.NumbersAre S d ↔ ¬ a.HoldsNumber P d := by
  cases a with
  | customTransaction ts =>
    obtain ⟨ds, hds, hall⟩ := ha
    have hiff := forall₂_numbersAre_iff_not h hall
    simp [NumbersAre, HoldsNumber, hds, hiff]
  | _ => exact FieldsAre.iff_not h ha

/-! ## Reading -/

/-- The fields of an action are the entries that it is made of. -/
theorem isFieldIn_of_make (h : make kind entries = .ok a) :
    a.fields.map Prod.fst = kind.fieldNames ++ kind.optionalNames ∧
      (∀ field ∈ a.fields, IsFieldIn entries field) ∧ ∀ ts, a ≠ .customTransaction ts := by
  unfold make at h
  split at h
  · next a' hmake =>
    cases h
    cases kind <;> simp only [ofFields?, Option.bind_eq_bind, Option.bind_eq_some_iff, Option.pure_def,
      Option.some.injEq, reduceCtorEq] at hmake
    case oneTimePayment =>
      obtain ⟨_, h1, _, h2, _, h3, rfl⟩ := hmake
      refine ⟨rfl, ?_, nofun⟩
      simp [fields, IsFieldIn, h1, h2, h3]
    case streamingPayment =>
      obtain ⟨_, h1, _, h2, _, h3, _, h4, _, h5, _, h6, rfl⟩ := hmake
      refine ⟨rfl, ?_, nofun⟩
      cases hnonce : Table.find? "nonce" entries <;>
        simp [fields, IsFieldIn, h1, h2, h3, h4, h5, h6, hnonce]
    case payerTopUp =>
      obtain ⟨_, h1, rfl⟩ := hmake
      refine ⟨rfl, ?_, nofun⟩
      simp [fields, IsFieldIn, h1]
    case treasuryNounTransfer =>
      obtain ⟨_, h1, _, h2, rfl⟩ := hmake
      refine ⟨rfl, ?_, nofun⟩
      simp [fields, IsFieldIn, h1, h2]
  · cases h

theorem find?_ownEntries {name : String} (hname : name ∈ kind.fieldNames ++ kind.optionalNames) :
    Table.find? name (ownEntries kind entries) = Table.find? name entries := by
  rw [ownEntries, Transaction.find?_knownEntries, if_pos hname]

theorem mem_integerFields {name : String} (hname : name ∈ kind.fieldNames ++ kind.optionalNames)
    (hinteger : name ∈ Transaction.integerFields) : name ∈ integerFields kind := by
  revert name
  cases kind <;> decide

/-- An action that is read is a bundle of transactions that are read, or complete and read step by step. -/
theorem steps_of_ofDocument (h : ofDocument d = .ok a) : ∃ entries, d = .dict entries ∧
    ((∃ ds ts, Table.find? "transactions" entries = some (.list ds) ∧ ds.mapM Transaction.ofDocument = .ok ts ∧
      a = .customTransaction ts) ∨
    ∃ kind known, IsComplete kind entries ∧ readFields kind (ownEntries kind entries) = .ok known ∧
      make kind known = .ok a) := by
  cases d with
  | dict entries =>
    refine ⟨entries, rfl, ?_⟩
    by_cases htag : kindOf (valueUnder "type" entries) = .ok .customTransaction
    · rw [ofDocument_of_bundle htag] at h
      unfold readBundle at h
      split at h
      · next ds hds =>
        obtain ⟨ts, hts, rfl⟩ := map_eq_ok.mp h
        exact .inl ⟨ds, ts, hds, hts, rfl⟩
      · cases h
    by_cases hcomplete : ∃ kind, IsComplete kind entries
    · obtain ⟨kind, hcomplete⟩ := hcomplete
      rw [ofDocument_of_isComplete hcomplete] at h
      obtain ⟨known, hknown, hmake⟩ := bind_eq_ok.mp h
      exact .inr ⟨kind, known, hcomplete, hknown, hmake⟩
    · obtain ⟨cause, hcause⟩ := exists_document_of_not_isComplete htag (not_exists.mp hcomplete)
      cases hcause.symm.trans h
  | _ => cases h

/-- **The integers of an action that is read are those that its values are used for.** -/
theorem numbersAre_of_ofDocument (h : ofDocument d = .ok a) :
    a.NumbersAre (fun v n => v.toInteger = .ok n) d := by
  obtain ⟨entries, rfl, ⟨ds, ts, hds, hts, rfl⟩ | ⟨kind, known, hcomplete, hknown, hmake⟩⟩ :=
    steps_of_ofDocument h
  · exact ⟨ds, hds, (mapM_eq_ok.mp hts).imp fun _ _ => Transaction.numbersAre_of_ofDocument⟩
  · obtain ⟨hnames, hfields, hplain⟩ := isFieldIn_of_make hmake
    have hare : FieldsAre (fun v n => v.toInteger = .ok n) (.dict entries) a.fields := by
      intro field hfield hname
      rw [readFields_eq_mapM] at hknown
      have hown : field.1 ∈ kind.fieldNames ++ kind.optionalNames := hnames ▸ List.mem_map_of_mem hfield
      exact readsField_of_mapM (readField kind) hknown (hfields field hfield)
        (readField_of_mem (mem_integerFields hown hname)) (find?_ownEntries hown)
    cases a with
    | customTransaction ts => exact absurd rfl (hplain ts)
    | _ => exact hare

/-- **Reading changes no number but truth values and fractions.** Whatever document is read, each integer
    of the action or transaction is what the value in its place denotes or is forced to; and all are
    denoted exactly if no value in place of an integer is a truth value or a fraction. -/
theorem ofDocument_numbers (d : Value) :
    (∀ a, ofDocument d = .ok a → a.NumbersAre (fun v n => v.Denotes n ∨ v.IsForcedTo n) d ∧
      (a.NumbersAre Value.Denotes d ↔ ¬ a.HoldsNumber Value.IsInexact d)) ∧
    ∀ t, Transaction.ofDocument d = .ok t → t.NumbersAre (fun v n => v.Denotes n ∨ v.IsForcedTo n) d ∧
      (t.NumbersAre Value.Denotes d ↔ ¬ t.HoldsNumber Value.IsInexact d) := by
  have hinexact : ∀ (v : Value) (n : Int), v.toInteger = .ok n → (v.Denotes n ↔ ¬ v.IsInexact) :=
    fun _ _ => Value.denotes_iff_not_isInexact
  simp only [← Value.toInteger_eq_ok_iff]
  exact ⟨fun _ ha => ⟨numbersAre_of_ofDocument ha,
      numbersAre_iff_not_holdsNumber hinexact (numbersAre_of_ofDocument ha)⟩,
    fun _ ht => ⟨Transaction.numbersAre_of_ofDocument ht,
      Transaction.numbersAre_iff_not_holdsNumber hinexact (Transaction.numbersAre_of_ofDocument ht)⟩⟩

/-- The number of a noun in a text, and numbers in a list as the input of a call. -/
theorem ofDocument_numbers_noun :
    (ofDocument (.dict [("type", .text "treasury-noun-transfer"), ("target", .text "0xaa"),
        ("noun_id", .text " 1_2 ")]) = .ok (.treasuryNounTransfer (.text "0xaa") (.int 12)) ∧
      NumbersAre Value.Denotes (.dict [("type", .text "treasury-noun-transfer"), ("target", .text "0xaa"),
        ("noun_id", .text " 1_2 ")]) (.treasuryNounTransfer (.text "0xaa") (.int 12))) ∧
    Transaction.ofDocument (.dict [("type", .text "function-call"), ("target", .text "0xdd"),
        ("function_name", .text "f"), ("function_inputs", .list [.list [.int 1, .text "2"]]),
        ("function_input_types", .list [.text "uint256[]"])]) =
      .ok (.functionCall ⟨.text "0xdd", .text "f", .list [.list [.int 1, .int 2]],
        .list [.text "uint256[]"]⟩) ∧
    Transaction.NumbersAre Value.Denotes (.dict [("type", .text "function-call"), ("target", .text "0xdd"),
        ("function_name", .text "f"), ("function_inputs", .list [.list [.int 1, .text "2"]]),
        ("function_input_types", .list [.text "uint256[]"])])
      (.functionCall ⟨.text "0xdd", .text "f", .list [.list [.int 1, .int 2]],
        .list [.text "uint256[]"]⟩) := by
  have hplain : ∀ {v : Value}, (∃ n, v = .int n) ∨ (∃ s, v = .text s) → ¬ v.IsInexact := by
    rintro v (⟨n, rfl⟩ | ⟨s, rfl⟩) ⟨m, ⟨⟩ | ⟨⟨⟩, -⟩⟩
  refine ⟨⟨rfl, ((ofDocument_numbers _).1 _ rfl).2.mpr ?_⟩, rfl,
    ((ofDocument_numbers _).2 _ rfl).2.mpr ?_⟩
  · rintro ⟨field, hfield, hname, v, hv, hinexact⟩
    simp only [fields, List.mem_cons, List.not_mem_nil, or_false] at hfield
    rcases hfield with rfl | rfl
    · exact absurd hname (by decide)
    · cases hv
      exact hplain (.inr ⟨_, rfl⟩) hinexact
  · rintro (⟨field, hfield, hname, -⟩ | ⟨-, ⟨⟨⟨_, htypes, hnames⟩, hts, ⟨_, hinputs, hvs⟩, -⟩, hhold⟩⟩)
    · have hnone : ∀ field ∈ Transaction.fields (.functionCall ⟨.text "0xdd", .text "f",
          .list [.list [.int 1, .int 2]], .list [.text "uint256[]"]⟩),
          field.1 ∉ Transaction.integerFields := by
        simp [Transaction.fields, Transaction.callFields, Transaction.integerFields]
      exact hnone field hfield hname
    · have htype : [Value.text "uint256[]"].mapM Abi.typeOf =
          .ok [.array (.basic "uint" (some (.plain 256))) none] := by rfl
      cases htypes
      cases hnames
      cases htype.symm.trans hts
      cases hinputs
      cases hvs
      rcases hhold with ⟨vs, hvs, u, hu, -, hinexact⟩ | hnone
      · cases hvs
        simp only [List.mem_cons, List.not_mem_nil, or_false] at hu
        rcases hu with rfl | rfl
        · exact hplain (.inl ⟨_, rfl⟩) hinexact
        · exact hplain (.inr ⟨_, rfl⟩) hinexact
      · exact hnone

/-- The fraction `7.9` becomes noun seven; truth becomes noun one, and does not denote it. -/
theorem not_ofDocument_numbers :
    ofDocument (.dict [("type", .text "treasury-noun-transfer"), ("target", .text "0xaa"),
        ("noun_id", .float (.finite false 8894609264056730 (-50)))]) =
      .ok (.treasuryNounTransfer (.text "0xaa") (.int 7)) ∧
    ofDocument (.dict [("type", .text "treasury-noun-transfer"), ("target", .text "0xaa"),
        ("noun_id", .bool true)]) = .ok (.treasuryNounTransfer (.text "0xaa") (.int 1)) ∧
    ¬ NumbersAre Value.Denotes (.dict [("type", .text "treasury-noun-transfer"), ("target", .text "0xaa"),
        ("noun_id", .bool true)]) (.treasuryNounTransfer (.text "0xaa") (.int 1)) := by
  refine ⟨by rfl, by rfl, fun h => ?_⟩
  have hnoun : ("noun_id", Value.int 1) ∈ fields (.treasuryNounTransfer (.text "0xaa") (.int 1)) := by
    simp [fields]
  rcases h _ hnoun (by decide) with ⟨v, n, hv, -, hdenotes⟩ | ⟨hname, -⟩
  · cases hv
    cases hdenotes with
    | number h => cases h
  · exact absurd hname (by decide)

end Action

end Proposals
