import Proposals.Proofs.Build
import Proposals.Proofs.Transaction.Document

/-!
# `Proofs.Action.Document` — actions are read back from documents

A document of an action has its tag and its fields, or the documents of the transactions of a bundle.
The actions that are built from transactions with documents have documents themselves
(`isShowable_of_builtFrom`, `IsShowable.exists_document`). If the transactions are decoded, the action is
restored from its document, whatever stands behind its entries (`ofDocument_append`): documents that
people read end with a sentence.
-/

namespace Proposals.Action

open Proposals.Handler Proposals.Outcome

variable {a : Action} {kind : ActionKind} {pool : List Transaction}

/-- Each part of the action has a written form: its currency is one, the transactions of a bundle have
    documents, and all else can be read back if it can be printed. -/
structure IsShowable (a : Action) : Prop where
  kind : ∃ kind, a.kind? = some kind
  fields : ∀ field ∈ a.fields,
    if field.1 = "currency" then ∃ c, field.2 = .currency c else field.2.IsLossless
  bundle : ∀ ts, a = .customTransaction ts → ∀ t ∈ ts, t.IsShowable

/-! ## Writing -/

/-- The names of the entries of a document of the kind. -/
def entryNames : ActionKind → List String
  | .customTransaction => ["transactions"]
  | kind => kind.fieldNames ++ kind.optionalNames

theorem nodup_entryNames (kind : ActionKind) :
    ("type" :: entryNames kind).Nodup ∧ "summary" ∉ "type" :: entryNames kind := by
  cases kind <;> decide

/-- The written form of a field. -/
def formOf (field : String × Value) : String × Value :=
  (field.1, if field.1 == "currency" then fieldToDocument field.2 else field.2)

theorem toDocument_plain (hkind : a.kind? = some kind) (hbundle : kind ≠ .customTransaction) :
    a.toDocument = .ok (.dict (("type", .text kind.tag) :: a.fields.map formOf)) ∧
      (a.fields.map formOf).map Prod.fst = entryNames kind := by
  cases a <;> cases hkind
  case customTransaction => exact absurd rfl hbundle
  all_goals exact ⟨rfl, rfl⟩

theorem toDocument_bundle {ts : List Transaction} {ds : List Value}
    (h : ts.mapM Transaction.toDocument = .ok ds) : (Action.customTransaction ts).toDocument =
      .ok (.dict [("type", .text ActionKind.customTransaction.tag), ("transactions", .list ds)]) := by
  show (ts.mapM Transaction.toDocument >>= _) = _
  rw [h]
  rfl

/-- Transactions that can be shown have documents. -/
theorem exists_documents {ts : List Transaction} (h : ∀ t ∈ ts, t.IsShowable) :
    ∃ ds, ts.mapM Transaction.toDocument = .ok ds ∧ ∀ d ∈ ds, d.IsLossless := by
  obtain ⟨ds, hds⟩ := exists_forall₂ fun t ht => (h t ht).exists_document
  refine ⟨ds, mapM_eq_ok.mpr (hds.imp fun _ _ hd => hd.1), fun d hd => ?_⟩
  obtain ⟨t, -, -, hlossless⟩ := exists_of_mem_forall₂ hds hd
  exact hlossless

/-- **An action that can be shown has a document**, in which nothing has the name of the sentence. -/
theorem IsShowable.exists_document (h : a.IsShowable) :
    ∃ entries, a.toDocument = .ok (.dict entries) ∧ (∀ entry ∈ entries, entry.2.IsLossless) ∧
      (entries.map Prod.fst).Nodup ∧ "summary" ∉ entries.map Prod.fst := by
  obtain ⟨kind, hkind⟩ := h.kind
  by_cases hbundle : kind = .customTransaction
  · subst hbundle
    obtain ⟨ts, rfl⟩ : ∃ ts, a = .customTransaction ts := by
      cases a <;> cases hkind
      exact ⟨_, rfl⟩
    obtain ⟨ds, hds, hlossless⟩ := exists_documents (h.bundle ts rfl)
    refine ⟨_, toDocument_bundle hds, ?_, nodup_entryNames .customTransaction⟩
    exact List.forall_mem_cons.mpr ⟨Value.isLossless_text _,
      List.forall_mem_singleton.mpr (Value.isLossless_list hlossless)⟩
  · obtain ⟨hwritten, hnames⟩ := toDocument_plain hkind hbundle
    have hkeys := nodup_entryNames kind
    rw [← hnames] at hkeys
    refine ⟨_, hwritten, List.forall_mem_cons.mpr ⟨Value.isLossless_text _, ?_⟩, hkeys⟩
    refine List.forall_mem_map.mpr fun field hfield => ?_
    have hpart := h.fields field hfield
    unfold formOf
    simp only [beq_iff_eq]
    split at hpart
    · next hname =>
      obtain ⟨c, hc⟩ := hpart
      simp only [if_pos hname, hc]
      exact Value.isLossless_text _
    · next hname =>
      simp only [if_neg hname]
      exact hpart

/-! ## What is built can be shown -/

theorem isText_of_amountIn {c : Currency} {units amount : Value} (h : amountIn c units = .ok amount) :
    ∃ s, amount = .text s := by
  obtain ⟨s, -, rfl⟩ := map_eq_ok.mp h
  exact ⟨s, rfl⟩

theorem isLossless_of_isText {v : Value} (h : ∃ s, v = .text s) : v.IsLossless := by
  obtain ⟨s, rfl⟩ := h
  exact Value.isLossless_text s

/-- **An action can be shown if the transactions that it is built from can.** -/
theorem isShowable_of_builtFrom (hpool : ∀ t ∈ pool, t.IsShowable) (h : BuiltFrom pool a) :
    a.IsShowable := by
  cases h with
  | transfer hmem hamount | usdcTransfer hmem hamount =>
    have ht := (hpool _ hmem).fields rfl
    refine ⟨⟨_, rfl⟩, ?_, by simp⟩
    simp only [Transaction.fields, fields, List.forall_mem_cons, List.not_mem_nil, false_imp_iff,
      implies_true, and_true, String.reduceEq, if_false, if_true] at ht ⊢
    exact ⟨ht.1, ⟨_, rfl⟩, isLossless_of_isText (isText_of_amountIn hamount)⟩
  | stream hmem htoken hamount =>
    have ht := (hpool _ hmem).fields rfl
    refine ⟨⟨_, rfl⟩, ?_, by simp⟩
    simp only [Transaction.fields, fields, List.forall_mem_cons, List.not_mem_nil, false_imp_iff,
      implies_true, and_true, String.reduceEq, if_false, if_true] at ht ⊢
    obtain ⟨hreceiver, htoken, -, hrest⟩ := ht
    exact ⟨hreceiver, htoken, isLossless_of_isText (isText_of_amountIn hamount), hrest⟩
  | topUp hmem hamount =>
    refine ⟨⟨_, rfl⟩, ?_, by simp⟩
    simp only [fields, List.forall_mem_singleton, String.reduceEq, if_false]
    exact isLossless_of_isText (isText_of_amountIn hamount)
  | nounTransfer hmem =>
    have ht := (hpool _ hmem).fields rfl
    refine ⟨⟨_, rfl⟩, ?_, by simp⟩
    simp only [Transaction.fields, fields, List.forall_mem_cons, List.not_mem_nil, false_imp_iff,
      implies_true, and_true, String.reduceEq, if_false] at ht ⊢
    exact ht

theorem isShowable_of_bundle {ts : List Transaction} (h : ∀ t ∈ ts, t.IsShowable) :
    (Action.customTransaction ts).IsShowable :=
  ⟨⟨_, rfl⟩, List.forall_mem_nil _, fun us hus => by cases hus; exact h⟩

/-! ## What is read back -/

/-- What building actions from decoded transactions gives: receivers and contracts are texts, currencies
    are such, amounts are written, other numbers are in range, and bundles are of decoded transactions. -/
def IsDecoded : Action → Prop
  | .oneTimePayment target currency amount =>
    (∃ s, target = .text s) ∧ (∃ c, currency = .currency c) ∧ ∃ s, amount = .text s
  | .streamingPayment p =>
    (∃ s, p.target = .text s) ∧ (∃ c, p.currency = .currency c) ∧ (∃ s, p.amount = .text s) ∧
      p.start.IsAmount ∧ p.stop.IsAmount ∧ (∃ s, p.contract = .text s) ∧ p.nonce.IsAmount
  | .payerTopUp amount => ∃ s, amount = .text s
  | .treasuryNounTransfer target nounId => (∃ s, target = .text s) ∧ nounId.IsAmount
  | .customTransaction ts => ∀ t ∈ ts, t.IsDecoded
  | .foreign => False

/-- **An action that is built from decoded transactions is decoded.** -/
theorem isDecoded_of_builtFrom (hpool : ∀ t ∈ pool, t.IsDecoded) (h : BuiltFrom pool a) : a.IsDecoded := by
  have htext : ∀ {v : Value}, v.IsAccount → ∃ s, v = .text s := Transaction.isText_of_isAccount
  cases h with
  | transfer hmem hamount =>
    have ht : _ ∧ _ := (hpool _ hmem).readable
    exact ⟨htext ht.1, ⟨_, rfl⟩, isText_of_amountIn hamount⟩
  | usdcTransfer hmem hamount =>
    have ht : _ ∧ _ := (hpool _ hmem).readable
    exact ⟨htext ht.1, ⟨_, rfl⟩, isText_of_amountIn hamount⟩
  | @stream s c amount hmem htoken hamount =>
    have hs : s.IsReadable := (hpool _ hmem).readable
    exact ⟨htext hs.receiver, ⟨c, htoken⟩, isText_of_amountIn hamount, hs.start, hs.stop,
      htext hs.contract, hs.nonce⟩
  | topUp hmem hamount => exact isText_of_amountIn hamount
  | nounTransfer hmem =>
    have ht : _ ∧ _ := (hpool _ hmem).readable
    exact ⟨htext ht.1, ht.2⟩

/-- A decoded action can be shown. -/
theorem IsDecoded.isShowable (h : a.IsDecoded) : a.IsShowable := by
  have hamount : ∀ {v : Value}, v.IsAmount → v.IsLossless := Abi.Coder.isLossless_of_isAmount
  cases a with
  | oneTimePayment target currency amount =>
    obtain ⟨htarget, hcurrency, hamount⟩ := h
    refine ⟨⟨_, rfl⟩, ?_, by simp⟩
    simp only [fields, List.forall_mem_cons, List.not_mem_nil, false_imp_iff, implies_true, and_true,
      String.reduceEq, if_false, if_true]
    exact ⟨isLossless_of_isText htarget, hcurrency, isLossless_of_isText hamount⟩
  | streamingPayment p =>
    obtain ⟨htarget, hcurrency, htext, hstart, hstop, hcontract, hnonce⟩ := h
    refine ⟨⟨_, rfl⟩, ?_, by simp⟩
    simp only [fields, List.forall_mem_cons, List.not_mem_nil, false_imp_iff, implies_true, and_true,
      String.reduceEq, if_false, if_true]
    exact ⟨isLossless_of_isText htarget, hcurrency, isLossless_of_isText htext, hamount hstart,
      hamount hstop, isLossless_of_isText hcontract, hamount hnonce⟩
  | payerTopUp amount =>
    refine ⟨⟨_, rfl⟩, ?_, by simp⟩
    simp only [fields, List.forall_mem_singleton, String.reduceEq, if_false]
    exact isLossless_of_isText h
  | treasuryNounTransfer target nounId =>
    obtain ⟨htarget, hnoun⟩ := h
    refine ⟨⟨_, rfl⟩, ?_, by simp⟩
    simp only [fields, List.forall_mem_cons, List.not_mem_nil, false_imp_iff, implies_true, and_true,
      String.reduceEq, if_false]
    exact ⟨isLossless_of_isText htarget, hamount hnoun⟩
  | customTransaction ts => exact isShowable_of_bundle fun t ht => (h t ht).isShowable
  | foreign => exact h.elim

/-- Documents that show transactions are read as these. -/
theorem mapM_ofDocument {ts : List Transaction} {ds : List Value}
    (h : List.Forall₂ Transaction.IsShown ts ds) :
    ts.mapM Transaction.toDocument = .ok ds ∧ ds.mapM Transaction.ofDocument = .ok ts :=
  ⟨mapM_eq_ok.mpr (h.imp fun _ _ ht => ht.written), mapM_eq_ok.mpr (h.flip.imp fun _ _ ht => ht.read)⟩

/-- **A decoded action is restored from its document**, whatever stands behind its entries. -/
theorem ofDocument_append (h : a.IsDecoded) {entries : List (String × Value)}
    (hwritten : a.toDocument = .ok (.dict entries)) (rest : List (String × Value)) :
    ofDocument (.dict (entries ++ rest)) = .ok a := by
  cases a with
  | oneTimePayment target currency amount =>
    obtain ⟨⟨_, rfl⟩, ⟨c, rfl⟩, _, rfl⟩ := h
    cases hwritten
    cases c <;> rfl
  | streamingPayment p =>
    obtain ⟨target, currency, amount, start, stop, contract, nonce⟩ := p
    obtain ⟨⟨_, rfl⟩, ⟨c, rfl⟩, ⟨_, rfl⟩, ⟨_, rfl, -⟩, ⟨_, rfl, -⟩, ⟨_, rfl⟩, _, rfl, -⟩ := h
    cases hwritten
    cases c <;> rfl
  | payerTopUp amount =>
    obtain ⟨_, rfl⟩ := h
    cases hwritten
    rfl
  | treasuryNounTransfer target nounId =>
    obtain ⟨⟨_, rfl⟩, _, rfl, -⟩ := h
    cases hwritten
    rfl
  | customTransaction ts =>
    obtain ⟨ds, hshown⟩ : ∃ ds, List.Forall₂ Transaction.IsShown ts ds :=
      exists_forall₂ fun t ht => Transaction.exists_isShown (h t ht)
    obtain ⟨hds, hts⟩ := mapM_ofDocument hshown
    rw [toDocument_bundle hds] at hwritten
    cases hwritten
    show (ds.mapM Transaction.ofDocument >>= _) = _
    rw [hts]
    rfl
  | foreign => exact h.elim

/-- **Only decimals in a bundle keep a decoded action from being printed.** -/
theorem isPrintable_iff (h : a.IsDecoded) {entries : List (String × Value)}
    (hwritten : a.toDocument = .ok (.dict entries)) : (∀ entry ∈ entries, entry.2.IsPrintable) ↔
      ∀ ts, a = .customTransaction ts → ∀ t ∈ ts, t.HasNoDecimal := by
  cases a with
  | customTransaction ts =>
    obtain ⟨ds, hshown⟩ : ∃ ds, List.Forall₂ Transaction.IsShown ts ds :=
      exists_forall₂ fun t ht => Transaction.exists_isShown (h t ht)
    rw [toDocument_bundle (mapM_ofDocument hshown).1] at hwritten
    cases hwritten
    rw [List.forall_mem_cons, List.forall_mem_singleton]
    have hall := Value.arePrintable_iff_of_forall₂ (hshown.imp fun _ _ ht => ht.printable)
    constructor
    · rintro ⟨-, hds⟩ us heq
      cases heq
      exact hall.mp hds
    · exact fun hts => ⟨trivial, hall.mpr (hts ts rfl)⟩
  | oneTimePayment target currency amount =>
    obtain ⟨⟨_, rfl⟩, ⟨c, rfl⟩, _, rfl⟩ := h
    cases hwritten
    exact iff_of_true (Value.areEntriesPrintable_iff.mp ⟨trivial, trivial, trivial, trivial, trivial⟩) nofun
  | streamingPayment p =>
    obtain ⟨target, currency, amount, start, stop, contract, nonce⟩ := p
    obtain ⟨⟨_, rfl⟩, ⟨c, rfl⟩, ⟨_, rfl⟩, ⟨_, rfl, -⟩, ⟨_, rfl, -⟩, ⟨_, rfl⟩, _, rfl, -⟩ := h
    cases hwritten
    exact iff_of_true (Value.areEntriesPrintable_iff.mp
      ⟨trivial, trivial, trivial, trivial, trivial, trivial, trivial, trivial, trivial⟩) nofun
  | payerTopUp amount =>
    obtain ⟨_, rfl⟩ := h
    cases hwritten
    exact iff_of_true (Value.areEntriesPrintable_iff.mp ⟨trivial, trivial, trivial⟩) nofun
  | treasuryNounTransfer target nounId =>
    obtain ⟨⟨_, rfl⟩, _, rfl, -⟩ := h
    cases hwritten
    exact iff_of_true (Value.areEntriesPrintable_iff.mp ⟨trivial, trivial, trivial, trivial⟩) nofun
  | foreign => exact h.elim

end Proposals.Action

namespace Proposals.Engine

/-- **The actions of decoded transactions** are decoded, the bundle among them. -/
theorem isDecoded_of_buildActions {e : Engine} {pool : List Transaction} {actions : List Action}
    {log : Log} (hpool : ∀ t ∈ pool, t.IsDecoded) (h : e.buildActions pool = .ok (actions, log)) :
    ∀ a ∈ actions, a.IsDecoded := by
  intro a ha
  rcases builtFrom_of_buildActions h a ha with hbuilt | ⟨ts, rfl, hsub⟩
  · exact Action.isDecoded_of_builtFrom hpool hbuilt
  · exact fun t ht => hpool t (hsub ht)

end Proposals.Engine
