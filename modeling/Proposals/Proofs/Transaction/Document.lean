import Proposals.Action.Document
import Proposals.Proofs.Abi.Document
import Proposals.Proofs.Codec

/-!
# `Proofs.Transaction.Document` — transactions are read back from documents

A document of a transaction has its tag and an entry for each field. Reading it picks the entries of the
kind out again, so it suffices that each field is restored from its entry (`ofDocument_dict`): numbers
from decimal texts, the token of a stream from its symbol, and the inputs of a call by their types.

What reading a proposal gives is more than readable (`Transaction.IsDecoded`): its values are in range,
and calls have inputs that calldata were decoded to. Such a transaction has a document, from which it is
restored; only decimals among the inputs keep the document from being printed (`exists_isShown`).
-/

namespace Proposals

open Proposals.Abi Proposals.Number Proposals.Outcome

/-! ## Calls that were decoded -/

/-- The call of a transaction that is one, with or without value. -/
def Transaction.call? : Transaction → Option FunctionCall
  | .functionCall call => some call
  | .payableFunctionCall call _ => some call
  | _ => none

/-- The parts of a call that calldata were decoded to: types that are written in full and have layouts,
    and a canonical input for each. -/
structure FunctionCall.IsDecodedTo (call : FunctionCall) (target name : String) (types : List String)
    (inputs : List Value) : Prop where
  eq : call = ⟨.text target, .text name, .list inputs, .list (types.map .text)⟩
  full : ∀ type ∈ types, HasNoShortForm type.toList
  canonical : ∃ coders, HasCoders types coders ∧ Coder.AreCanonical coders inputs

/-- The call is one that calldata were decoded to. -/
def FunctionCall.IsDecoded (call : FunctionCall) : Prop :=
  ∃ target name types inputs, call.IsDecodedTo target name types inputs

theorem isDecoded_of_parseCall {raw : RawTransaction} {call : FunctionCall}
    (h : Codec.parseCall raw = .ok call) : call.IsDecoded := by
  unfold Codec.parseCall at h
  split at h
  · next decoded hdecoded =>
    obtain ⟨target, htarget, h⟩ := bind_eq_ok.mp h
    cases h
    obtain ⟨⟨a, rfl, -⟩, -⟩ := Codec.addressOf_sound htarget
    obtain ⟨c, -, -, hread, -, -⟩ := decodeCall_sound hdecoded
    exact ⟨a, decoded.name, decoded.types, decoded.inputs, rfl,
      fun type htype => ((parseSignature_sound hread).2 type htype).2,
      exists_areCanonical_of_decodeCall hdecoded⟩
  · exact absurd h (by simp)
  · exact absurd h (by simp)

/-! ## Inputs of calls -/

namespace Abi

open AbiType

/-- A type with a layout that is written in full is its own full type. -/
theorem full_eq_self {type : String} {t : AbiType} {c : Coder} (hread : read type.toList = .ok t)
    (hof : Coder.ofType? t = some c) (hfull : HasNoShortForm type.toList) : full t = t := by
  obtain ⟨hchars, -, -⟩ := chars_of_read hread
  have hlayout : HasLayout t := ⟨by rw [hchars]; exact hread, c, hof⟩
  have hagain := hlayout.read_full
  rw [hchars, hfull.expandAliases_eq_self] at hagain
  exact Except.ok.inj (hagain.symm.trans hread)

end Abi

namespace Transaction

/-- The inputs of a call have written forms, from which their types restore them. -/
structure AreInputsWritten (kind : TransactionKind) (types inputs ws : List Value) : Prop where
  written : (types.zip inputs).mapM (fun (t, v) => Abi.toDocument t v) = .ok ws
  read : readInputs kind types ws = .ok inputs
  length : types.length = ws.length
  isLossless : ∀ w ∈ ws, w.IsLossless
  printable : Value.ArePrintable ws ↔ Value.HaveNoDecimals inputs

/-- **The inputs of a decoded call are written and restored.** -/
theorem exists_areInputsWritten (kind : TransactionKind) {types : List String} {coders : List Coder}
    {inputs : List Value} (hcoders : HasCoders types coders)
    (hfull : ∀ type ∈ types, HasNoShortForm type.toList) (hinputs : Coder.AreCanonical coders inputs) :
    ∃ ws, AreInputsWritten kind (types.map .text) inputs ws := by
  have hsized := hcoders.areSized
  obtain ⟨abiTypes, htypes, hof⟩ := hcoders
  induction types generalizing abiTypes coders inputs with
  | nil =>
    cases htypes
    cases hof
    cases hinputs
    exact ⟨[], rfl, by simp [readInputs], rfl, List.forall_mem_nil _, Iff.rfl⟩
  | cons type types ih =>
    rw [List.map_cons, List.mapM_cons] at htypes
    obtain ⟨t, ht, htypes⟩ := bind_eq_ok.mp htypes
    obtain ⟨ts, hts, htypes⟩ := bind_eq_ok.mp htypes
    cases htypes
    simp only [Coder.ofTypes?, Option.bind_eq_bind, Option.bind_eq_some_iff, Option.pure_def,
      Option.some.injEq] at hof
    obtain ⟨c, hc, cs, hcs, rfl⟩ := hof
    obtain ⟨v, vs, rfl, hv, hvs⟩ := hinputs
    obtain ⟨hhead, htail⟩ := List.forall_mem_cons.mp hfull
    obtain ⟨w, hw⟩ := exists_isWritten t (full_eq_self (typeOf_text_eq_ok.mp ht) hc hhead) hc hsized.1 hv
    obtain ⟨ws, hws⟩ := ih htail hvs hsized.2 ts hts hcs
    have hwritten : Abi.toDocument (.text type) v = .ok w := by
      unfold Abi.toDocument
      rw [ht, ok_bind, hw.written]
    have hread : fromDocument (.text type) w = .ok v := by
      unfold fromDocument
      rw [ht, ok_bind, hw.read]
    refine ⟨w :: ws, ?_, ?_, congrArg (· + 1) hws.length,
      List.forall_mem_cons.mpr ⟨hw.isLossless, hws.isLossless⟩, and_congr hw.printable hws.printable⟩
    · rw [List.map_cons, List.zip_cons_cons, List.mapM_cons]
      show (Abi.toDocument (.text type) v >>= _) = _
      rw [hwritten, ok_bind, hws.written]
      rfl
    · rw [List.map_cons, readInputs, hread, hws.read]
      rfl

/-! ## The entries of a document -/

/-- The names of the fields of a transaction are those of its kind. -/
theorem map_fst_fields {t : Transaction} {kind : TransactionKind} (h : t.kind? = some kind) :
    t.fields.map Prod.fst = kind.fieldNames ++ kind.optionalNames := by
  cases t <;> cases h <;> rfl

theorem nodup_names (kind : TransactionKind) :
    ("type" :: (kind.fieldNames ++ kind.optionalNames)).Nodup := by
  cases kind <;> decide

/-- A transaction is made again from its fields. -/
theorem ofFields?_fields {t : Transaction} {kind : TransactionKind} (h : t.kind? = some kind) :
    (ofFields? kind fun name => Table.find? name t.fields) = some t := by
  cases t <;> cases h <;> rfl

theorem ofTag?_tag (kind : TransactionKind) : TransactionKind.ofTag? kind.tag = some kind := by
  cases kind <;> decide

end Transaction

namespace Table

variable {κ α : Type} [DecidableEq κ]

/-- If keys are apart, what stands under a key is found under it. -/
theorem find?_of_mem {t : List (κ × α)} (hkeys : (t.map Prod.fst).Nodup) {entry : κ × α}
    (h : entry ∈ t) : find? entry.1 t = some entry.2 := by
  induction t with
  | nil => exact absurd h (by simp)
  | cons first t ih =>
    obtain ⟨k, w⟩ := first
    rw [List.map_cons, List.nodup_cons] at hkeys
    rcases List.mem_cons.mp h with rfl | h
    · exact if_pos rfl
    · have hne : k ≠ entry.1 := fun heq => hkeys.1 (List.mem_map.mpr ⟨entry, h, heq.symm⟩)
      rw [find?, if_neg hne, ih hkeys.2 h]

end Table

namespace Transaction

/-- Among more entries, those under the names are picked out in order. -/
theorem knownEntries_eq {names : List String} {entries all : List (String × Value)}
    (hnames : entries.map Prod.fst = names) (hkeys : names.Nodup)
    (hall : ∀ name ∈ names, Table.find? name all = Table.find? name entries) :
    knownEntries names all = entries := by
  subst hnames
  have hfound : ∀ entry ∈ entries, Table.find? entry.1 all = some entry.2 := fun entry hentry =>
    (hall _ (List.mem_map_of_mem hentry)).trans (Table.find?_of_mem hkeys hentry)
  clear hall hkeys
  unfold knownEntries
  induction entries with
  | nil => rfl
  | cons entry entries ih =>
    obtain ⟨hentry, hentries⟩ := List.forall_mem_cons.mp hfound
    rw [List.map_cons, List.filterMap_cons, hentry, ih hentries]
    rfl

theorem missingNames_eq_nil {names : List String} {all : List (String × Value)}
    (h : ∀ name ∈ names, (Table.find? name all).isSome) : missingNames names all = [] := by
  refine List.filter_eq_nil_iff.mpr fun name hname => ?_
  rw [Option.isNone_iff_eq_none, ← Option.not_isSome_iff_eq_none, not_not]
  exact h name hname

/-- **A transaction is read from a document** if its fields are restored from the entries. -/
theorem ofDocument_dict {t : Transaction} {kind : TransactionKind} (hkind : t.kind? = some kind)
    {entries entries' : List (String × Value)} (hnames : entries.map Prod.fst = t.fields.map Prod.fst)
    (hspecial : readSpecial kind entries = .ok entries')
    (hread : readIntegers kind entries' = .ok t.fields) :
    ofDocument (.dict (("type", .text kind.tag) :: entries)) = .ok t := by
  have hkeys := nodup_names kind
  rw [← map_fst_fields hkind, ← hnames] at hkeys
  obtain ⟨htype, hkeys⟩ := List.nodup_cons.mp hkeys
  have hall : ∀ name ∈ entries.map Prod.fst,
      Table.find? name (("type", .text kind.tag) :: entries) = Table.find? name entries := by
    intro name hname
    have hne : "type" ≠ name := fun heq => htype (heq ▸ hname)
    rw [Table.find?, if_neg hne]
  have hmissing : missingNames kind.fieldNames (("type", .text kind.tag) :: entries) = [] := by
    refine missingNames_eq_nil fun name hname => ?_
    have hmem : name ∈ entries.map Prod.fst := by
      rw [hnames, map_fst_fields hkind]
      exact List.mem_append_left _ hname
    rw [hall name hmem, Option.isSome_iff_ne_none, ne_eq, Table.find?_eq_none, not_not]
    exact hmem
  have hknown := knownEntries_eq (hnames.trans (map_fst_fields hkind))
    (map_fst_fields hkind ▸ hnames ▸ hkeys) (fun name hname => hall name
      (by rwa [hnames, map_fst_fields hkind]))
  have htag : kindOf ((Table.find? "type" (("type", .text kind.tag) :: entries)).getD .null) =
      .ok kind := by
    simp only [Table.find?, if_true, Option.getD_some, kindOf, Value.text?, Option.bind_some,
      ofTag?_tag]
  unfold ofDocument
  simp only [htag, ok_bind, hmissing, List.isEmpty_nil, Bool.not_true, Bool.false_eq_true, if_false,
    hknown, hspecial, hread, ofFields?_fields hkind, pure_eq_ok]

/-! ## What a transaction is written as -/

/-- A transaction is written field by field. -/
theorem toDocument_dict {t : Transaction} {kind : TransactionKind} (hkind : t.kind? = some kind)
    {entries : List (String × Value)} (h : List.Forall₂
      (fun field entry => entry.1 = field.1 ∧ fieldToDocument t field.1 field.2 = .ok entry.2)
      t.fields entries) :
    t.toDocument = .ok (.dict (("type", .text kind.tag) :: entries)) := by
  have hkind' : t.kind = .ok kind := by rw [Transaction.kind, hkind]
  unfold toDocument
  rw [hkind', ok_bind, mapM_eq_ok.mpr (h.imp fun field entry hentry => ?_)]
  · rfl
  · obtain ⟨hname, hwritten⟩ := hentry
    show (fieldToDocument t field.1 field.2 >>= fun w => pure (field.1, w)) = _
    rw [hwritten, ← hname]
    rfl

/-- The written form of a field that is no part of a call. -/
def formOf (field : String × Value) : String × Value :=
  (field.1, if field.1 = "token" then Action.fieldToDocument field.2
    else if integerFields.contains field.1 then .text field.2.display else field.2)

theorem map_fst_formOf (fields : List (String × Value)) :
    (fields.map formOf).map Prod.fst = fields.map Prod.fst := by
  rw [List.map_map]
  rfl

/-- A transaction without a call is written field by field in these forms. -/
theorem toDocument_plain {t : Transaction} {kind : TransactionKind} (hkind : t.kind? = some kind)
    (hcall : t.call? = none)
    (htoken : ∀ field ∈ t.fields, field.1 = "token" → ∃ c, field.2 = .currency c) :
    t.toDocument = .ok (.dict (("type", .text kind.tag) :: t.fields.map formOf)) := by
  refine toDocument_dict hkind (List.forall₂_map_right_iff.mpr (List.forall₂_same.mpr ?_))
  intro field hfield
  have hnames : ∀ name ∈ kind.fieldNames ++ kind.optionalNames,
      name ≠ "function_inputs" ∧ name ≠ "function_input_types" := by
    cases t with
    | functionCall | payableFunctionCall => exact absurd hcall nofun
    | _ => cases hkind <;> decide
  have hplain := hnames field.1 (map_fst_fields hkind ▸ List.mem_map_of_mem hfield)
  refine ⟨rfl, ?_⟩
  unfold fieldToDocument formOf
  simp only [beq_iff_eq, hplain.1, hplain.2, if_false]
  by_cases hname : field.1 = "token"
  · obtain ⟨c, hc⟩ := htoken field hfield hname
    simp only [if_pos hname, hc, Action.fieldToDocument]
  · simp only [if_neg hname]
    split <;> rfl

/-- The entries of a call with its inputs in some form. -/
def callEntries (target name : String) (types : List String) (ws : List Value) :
    List (String × Value) :=
  [("target", .text target), ("function_name", .text name), ("function_inputs", .list ws),
    ("function_input_types", .list (types.map .text))]

/-- The value of a call in some form, if it carries one. -/
def valueEntries (f : Value → Value) : Transaction → List (String × Value)
  | .payableFunctionCall _ value => [("value", f value)]
  | _ => []

variable {target name : String} {types : List String} {inputs ws : List Value} {t : Transaction}
  {call : FunctionCall} {kind : TransactionKind}

theorem map_fst_callEntries (hcall : t.call? = some call) :
    (callEntries target name types ws ++ valueEntries (fun v => .text v.display) t).map Prod.fst =
      t.fields.map Prod.fst := by
  cases t <;> cases hcall <;> rfl

theorem toDocument_call (hcall : t.call? = some call) (h : call.IsDecodedTo target name types inputs)
    (hkind : t.kind? = some kind) (hws : AreInputsWritten kind (types.map .text) inputs ws) :
    t.toDocument = .ok (.dict (("type", .text kind.tag) :: (callEntries target name types ws ++
      valueEntries (fun v => .text v.display) t))) := by
  have hwritten : inputsToDocument (.list (types.map .text)) (.list inputs) = .ok (.list ws) := by
    unfold inputsToDocument
    rw [Value.items, ok_bind, Value.items, ok_bind]
    show ((List.zip _ _).mapM (fun (t, v) => Abi.toDocument t v) >>= _) = _
    rw [hws.written]
    rfl
  obtain rfl := h.eq
  refine toDocument_dict hkind ?_
  cases t with
  | functionCall call =>
    cases hcall
    exact .cons ⟨rfl, rfl⟩ (.cons ⟨rfl, rfl⟩ (.cons ⟨rfl, hwritten⟩ (.cons ⟨rfl, rfl⟩ .nil)))
  | payableFunctionCall call value =>
    cases hcall
    exact .cons ⟨rfl, rfl⟩ (.cons ⟨rfl, rfl⟩ (.cons ⟨rfl, hwritten⟩ (.cons ⟨rfl, rfl⟩
      (.cons ⟨rfl, rfl⟩ .nil))))
  | _ => exact absurd hcall (by simp [call?])

/-! ## Transactions with documents -/

/-- Each part of the transaction has a written form: the token of a stream is a currency, a call has inputs
    that calldata were decoded to, and all else can be read back if it can be printed. -/
structure IsShowable (t : Transaction) : Prop where
  kind : ∃ kind, t.kind? = some kind
  fields : t.call? = none → ∀ field ∈ t.fields,
    if field.1 = "token" then ∃ c, field.2 = .currency c else field.2.IsLossless
  call : ∀ call, t.call? = some call → call.IsDecoded

theorem isLossless_call {rest : List (String × Value)}
    (hnames : (callEntries target name types ws ++ rest).map Prod.fst =
      kind.fieldNames ++ kind.optionalNames) (hws : ∀ w ∈ ws, w.IsLossless)
    (hrest : ∀ entry ∈ rest, ∃ s, entry.2 = .text s) :
    (Value.dict (("type", .text kind.tag) :: (callEntries target name types ws ++ rest))).IsLossless := by
  refine Value.isLossless_dict (by rw [List.map_cons, hnames]; exact nodup_names kind) ?_
  rw [List.forall_mem_cons, List.forall_mem_append]
  refine ⟨Value.isLossless_text _, ?_, fun entry hentry => ?_⟩
  · simp only [callEntries, List.forall_mem_cons, List.not_mem_nil, false_imp_iff, implies_true, and_true]
    exact ⟨Value.isLossless_text _, Value.isLossless_text _, Value.isLossless_list hws,
      Value.isLossless_list (List.forall_mem_map.mpr fun s _ => Value.isLossless_text s)⟩
  · obtain ⟨s, hs⟩ := hrest entry hentry
    rw [hs]
    exact Value.isLossless_text s

/-- **A transaction that can be shown has a document.** -/
theorem IsShowable.exists_document (h : t.IsShowable) : ∃ d, t.toDocument = .ok d ∧ d.IsLossless := by
  obtain ⟨kind, hkind⟩ := h.kind
  cases hcall : t.call? with
  | none =>
    have hfields := h.fields hcall
    refine ⟨_, toDocument_plain hkind hcall fun field hfield hname => ?_, Value.isLossless_dict ?_ ?_⟩
    · have hpart := hfields field hfield
      rwa [if_pos hname] at hpart
    · rw [List.map_cons, map_fst_formOf, map_fst_fields hkind]
      exact nodup_names kind
    · refine List.forall_mem_cons.mpr ⟨Value.isLossless_text _, List.forall_mem_map.mpr ?_⟩
      intro field hfield
      have hpart := hfields field hfield
      unfold formOf
      split at hpart
      · next hname =>
        obtain ⟨c, hc⟩ := hpart
        simp only [if_pos hname, hc]
        exact Value.isLossless_text _
      · next hname =>
        simp only [if_neg hname]
        split
        · exact Value.isLossless_text _
        · exact hpart
  | some call =>
    obtain ⟨target, name, types, inputs, hparts⟩ := h.call call hcall
    obtain ⟨coders, hcoders, hinputs⟩ := hparts.canonical
    obtain ⟨ws, hws⟩ := exists_areInputsWritten kind hcoders hparts.full hinputs
    refine ⟨_, toDocument_call hcall hparts hkind hws, isLossless_call
      ((map_fst_callEntries hcall).trans (map_fst_fields hkind)) hws.isLossless ?_⟩
    cases t <;> simp [valueEntries]

/-! ## What is read back -/

/-- A number is read from its decimal text. -/
theorem readInteger_display (kind : TransactionKind) {v : Value} (hv : v.IsAmount) :
    readInteger kind (.text v.display) = .ok v := by
  obtain ⟨n, rfl, hn⟩ := hv
  have hlt : n < tenTo maxDigits := calc
    n < twoTo 256 := Nat.lt_of_le_pred (twoTo_pos 256) hn
    _ < tenTo maxDigits := twoTo_lt_tenTo_maxDigits (Nat.le_refl 256)
  have hread : (Value.text (Value.int n).display).toInteger = .ok (n : Int) := by
    show Value.textInteger (String.ofList (natText n)).toList = _
    rw [String.toList_ofList, Value.textInteger, readInteger?_natText hlt]
  rw [readInteger, hread]

/-- Fields are restored from entries, one by one. -/
theorem readIntegers_eq {kind : TransactionKind} {fields entries : List (String × Value)}
    (h : List.Forall₂ (fun field entry => entry.1 = field.1 ∧
      (if integerFields.contains entry.1 then readInteger kind entry.2 else .ok entry.2) =
        .ok field.2) fields entries) : readIntegers kind entries = .ok fields := by
  induction h with
  | nil => rfl
  | @cons field entry fields entries hentry _ ih =>
    obtain ⟨name, v⟩ := field
    obtain ⟨name', w⟩ := entry
    obtain ⟨rfl, hread⟩ := hentry
    unfold readIntegers
    cases hinteger : integerFields.contains name' with
    | true =>
      rw [hinteger, if_pos rfl] at hread
      simp only [if_true, hread, ok_bind, ih, pure_eq_ok]
    | false =>
      rw [hinteger, if_neg (by simp)] at hread
      cases hread
      simp only [Bool.false_eq_true, if_false, ok_bind, ih, pure_eq_ok]

/-- What reading a proposal gives: a readable transaction with its value in range, with calldata that are
    a text, or a call with inputs that calldata were decoded to. -/
structure IsDecoded (t : Transaction) : Prop where
  readable : t.IsReadable
  value : t.nativeValue.IsAmount
  calldata : ∀ v, t.field "calldata" = .ok v → ∃ s, v = .text s
  call : ∀ call, t.call? = some call → call.IsDecoded

/-- No field has an exact decimal. -/
def HasNoDecimal (t : Transaction) : Prop := ∀ field ∈ t.fields, field.2.HasNoDecimal

/-- The document shows the transaction, which can be read from it. Only decimals keep it from being
    printed. -/
structure IsShown (t : Transaction) (d : Value) : Prop where
  written : t.toDocument = .ok d
  read : ofDocument d = .ok t
  printable : d.IsPrintable ↔ t.HasNoDecimal

/-- The field holds a token, a number in range or a text. -/
def IsDecodedField (field : String × Value) : Prop :=
  if field.1 = "token" then ∃ c, field.2 = .currency c
  else if integerFields.contains field.1 then field.2.IsAmount else ∃ s, field.2 = .text s

theorem isDecodedField_amount {name : String} {v : Value}
    (hname : name ≠ "token" ∧ integerFields.contains name = true) (hv : v.IsAmount) :
    IsDecodedField (name, v) := by
  rwa [IsDecodedField, if_neg hname.1, if_pos hname.2]

theorem isDecodedField_text {name : String} {v : Value}
    (hname : name ≠ "token" ∧ integerFields.contains name = false) (hv : ∃ s, v = .text s) :
    IsDecodedField (name, v) := by
  rwa [IsDecodedField, if_neg hname.1, hname.2, if_neg (by simp)]

theorem isText_of_isAccount {v : Value} (h : v.IsAccount) : ∃ s, v = .text s := h.imp fun _ h => h.1

/-- The fields of all decoded transactions but calls. -/
theorem IsDecoded.isDecodedField (h : t.IsDecoded) (hcall : t.call? = none) :
    ∀ field ∈ t.fields, IsDecodedField field := by
  have hreadable := h.readable
  have hvalue := h.value
  have hcalldata := h.calldata
  cases t with
  | payerTopUp value | wethDeposit value =>
    simp only [fields, List.forall_mem_cons, List.not_mem_nil, false_imp_iff, implies_true, and_true]
    exact isDecodedField_amount (by decide) hvalue
  | transfer target value =>
    simp only [fields, List.forall_mem_cons, List.not_mem_nil, false_imp_iff, implies_true, and_true]
    exact ⟨isDecodedField_text (by decide) (isText_of_isAccount hreadable.1),
      isDecodedField_amount (by decide) hvalue⟩
  | usdcTransferViaPayer a b | usdcApproval a b | wethTransfer a b | wethApproval a b
  | treasuryNounTransfer a b =>
    simp only [fields, List.forall_mem_cons, List.not_mem_nil, false_imp_iff, implies_true, and_true]
    exact ⟨isDecodedField_text (by decide) (isText_of_isAccount hreadable.1),
      isDecodedField_amount (by decide) hreadable.2⟩
  | stream s =>
    have hs : s.IsReadable := hreadable
    simp only [fields, List.forall_mem_cons, List.not_mem_nil, false_imp_iff, implies_true, and_true]
    exact ⟨isDecodedField_text (by decide) (isText_of_isAccount hs.receiver),
      hs.token.elim (fun h => ⟨_, h⟩) fun h => ⟨_, h⟩, isDecodedField_amount (by decide) hs.amount,
      isDecodedField_amount (by decide) hs.start, isDecodedField_amount (by decide) hs.stop,
      isDecodedField_text (by decide) (isText_of_isAccount hs.contract),
      isDecodedField_amount (by decide) hs.nonce⟩
  | unparsedPayableFunctionCall target calldata value =>
    simp only [fields, List.forall_mem_cons, List.not_mem_nil, false_imp_iff, implies_true, and_true]
    exact ⟨isDecodedField_text (by decide) (isText_of_isAccount hreadable.1),
      isDecodedField_text (by decide) (hcalldata _ rfl), isDecodedField_amount (by decide) hvalue⟩
  | unparsedFunctionCall target calldata =>
    simp only [fields, List.forall_mem_cons, List.not_mem_nil, false_imp_iff, implies_true, and_true]
    exact ⟨isDecodedField_text (by decide) (isText_of_isAccount hreadable),
      isDecodedField_text (by decide) (hcalldata _ rfl)⟩
  | functionCall call | payableFunctionCall call value => exact absurd hcall nofun
  | foreign => exact hreadable.elim

/-- A decoded transaction can be shown. -/
theorem IsDecoded.isShowable (h : t.IsDecoded) : t.IsShowable where
  kind := h.readable.exists_kind.imp fun _ hkind => hkind.1
  fields hcall field hfield := by
    have hpart := h.isDecodedField hcall field hfield
    unfold IsDecodedField at hpart
    split
    · next hname => rwa [if_pos hname] at hpart
    · next hname =>
      rw [if_neg hname] at hpart
      split at hpart
      · exact Abi.Coder.isLossless_of_isAmount hpart
      · obtain ⟨s, hs⟩ := hpart
        rw [hs]
        exact Value.isLossless_text s
  call := h.call

theorem IsShown.isLossless {d : Value} (hd : t.IsShown d) (h : t.IsDecoded) : d.IsLossless := by
  obtain ⟨d', hd', hlossless⟩ := h.isShowable.exists_document
  rwa [Except.ok.inj (hd.written.symm.trans hd')]

/-- The written form of a decoded field can be printed, and has no decimal. -/
theorem IsDecodedField.isPrintable_formOf {field : String × Value} (h : IsDecodedField field) :
    (formOf field).2.IsPrintable ∧ field.2.HasNoDecimal := by
  unfold IsDecodedField at h
  unfold formOf
  split at h
  · next hname =>
    obtain ⟨c, hc⟩ := h
    simp only [if_pos hname, hc]
    exact ⟨trivial, trivial⟩
  · next hname =>
    simp only [if_neg hname]
    split at h
    · next hinteger =>
      obtain ⟨n, hn, -⟩ := h
      rw [hn, if_pos hinteger]
      exact ⟨trivial, trivial⟩
    · next hinteger =>
      obtain ⟨s, hs⟩ := h
      rw [hs, if_neg hinteger]
      exact ⟨trivial, trivial⟩

/-- The field with its number as a text, if it has one. -/
def numberForm (field : String × Value) : String × Value :=
  (field.1, if integerFields.contains field.1 then .text field.2.display else field.2)

theorem currency?_symbol (c : Currency) : (Value.text c.symbol).currency? = some c := by
  cases c <;> decide

/-- The token of a stream is read from its symbol; no other kind has one. -/
theorem readSpecial_plain (hkind : t.kind? = some kind) (hcall : t.call? = none)
    (htoken : ∀ field ∈ t.fields, field.1 = "token" → ∃ c, field.2 = .currency c) :
    readSpecial kind (t.fields.map formOf) = .ok (t.fields.map numberForm) := by
  cases t with
  | stream s =>
    cases hkind
    obtain ⟨receiver, token, amount, start, stop, contract, nonce⟩ := s
    obtain ⟨c, rfl⟩ : ∃ c, token = .currency c := htoken ("token", token) (by simp [fields]) rfl
    have hsymbol : ((Table.find? "token" ((Transaction.stream ⟨receiver, .currency c, amount, start, stop,
        contract, nonce⟩).fields.map formOf)).getD .null).currency? = some c := currency?_symbol c
    unfold readSpecial
    simp only [hsymbol]
    rfl
  | functionCall | payableFunctionCall => cases hcall
  | foreign => cases hkind
  | _ => cases hkind; rfl

theorem exists_isShown_plain (h : t.IsDecoded) (hcall : t.call? = none) : ∃ d, t.IsShown d := by
  obtain ⟨kind, hkind, -⟩ := h.readable.exists_kind
  have hfields := h.isDecodedField hcall
  have htoken : ∀ field ∈ t.fields, field.1 = "token" → ∃ c, field.2 = .currency c := by
    intro field hfield hname
    have hpart := hfields field hfield
    rwa [IsDecodedField, if_pos hname] at hpart
  refine ⟨_, toDocument_plain hkind hcall htoken, ofDocument_dict hkind (map_fst_formOf t.fields)
    (readSpecial_plain hkind hcall htoken) (readIntegers_eq ?_), iff_of_true ?_ ?_⟩
  · refine List.forall₂_map_right_iff.mpr (List.forall₂_same.mpr fun field hfield => ⟨rfl, ?_⟩)
    have hpart := hfields field hfield
    unfold numberForm
    cases hinteger : integerFields.contains field.1 with
    | true =>
      have hname : field.1 ≠ "token" := fun hname => by rw [hname] at hinteger; exact absurd hinteger nofun
      rw [IsDecodedField, if_neg hname, if_pos hinteger] at hpart
      exact readInteger_display kind hpart
    | false => rfl
  · refine Value.areEntriesPrintable_iff.mpr (List.forall_mem_cons.mpr ⟨trivial, ?_⟩)
    exact List.forall_mem_map.mpr fun field hfield => (hfields field hfield).isPrintable_formOf.1
  · exact fun field hfield => (hfields field hfield).isPrintable_formOf.2

theorem readSpecial_call (hkind : kind = .functionCall ∨ kind = .payableFunctionCall)
    (hws : AreInputsWritten kind (types.map .text) inputs ws) (rest : List (String × Value)) :
    readSpecial kind (callEntries target name types ws ++ rest) =
      .ok (callEntries target name types inputs ++ rest) := by
  have htypes : Table.find? "function_input_types" (callEntries target name types ws ++ rest) =
      some (.list (types.map .text)) := rfl
  have hinputs : Table.find? "function_inputs" (callEntries target name types ws ++ rest) =
      some (.list ws) := rfl
  have hlength : ¬ (types.map Value.text).length ≠ ws.length := not_not_intro hws.length
  rcases hkind with rfl | rfl <;>
    simp only [readSpecial, htypes, hinputs, Option.getD_some, Value.items, ok_bind, hlength, if_false,
      hws.read, pure_eq_ok] <;> rfl

/-- What a call is written as can be printed exactly if its inputs can. -/
theorem isPrintable_call {rest : List (String × Value)} (hrest : ∀ entry ∈ rest, ∃ s, entry.2 = .text s) :
    (Value.dict (("type", .text kind.tag) :: (callEntries target name types ws ++ rest))).IsPrintable ↔
      Value.ArePrintable ws := by
  have htexts : ∀ entry ∈ rest, entry.2.IsPrintable := fun entry hentry => by
    obtain ⟨s, hs⟩ := hrest entry hentry
    rw [hs]
    trivial
  have htypes : (Value.list (types.map .text)).IsPrintable :=
    Value.arePrintable_iff.mpr (List.forall_mem_map.mpr fun _ _ => trivial)
  show Value.AreEntriesPrintable _ ↔ _
  rw [Value.areEntriesPrintable_iff, List.forall_mem_cons, List.forall_mem_append]
  simp only [callEntries, List.forall_mem_cons, List.not_mem_nil, false_imp_iff, implies_true, and_true,
    Value.IsPrintable, true_and]
  exact ⟨fun h => h.1.1, fun h => ⟨⟨h, htypes⟩, htexts⟩⟩

/-- The inputs of a call are restored with its other fields. -/
theorem readIntegers_call {rest fields : List (String × Value)}
    (hrest : readIntegers kind rest = .ok fields) :
    readIntegers kind (callEntries target name types inputs ++ rest) =
      .ok (callEntries target name types inputs ++ fields) := by
  simp only [callEntries, List.cons_append, List.nil_append, readIntegers, integerFields, hrest]
  rfl

theorem hasNoDecimal_call (hcall : t.call? = some call) (hvalue : t.nativeValue.IsAmount)
    (h : call.IsDecodedTo target name types inputs) :
    Value.HaveNoDecimals inputs ↔ t.HasNoDecimal := by
  have htypes : (Value.list (types.map .text)).HasNoDecimal :=
    Value.haveNoDecimals_iff.mpr (List.forall_mem_map.mpr fun _ _ => trivial)
  have hcallFields : (∀ field ∈ callFields call, field.2.HasNoDecimal) ↔
      Value.HaveNoDecimals inputs := by
    rw [h.eq]
    simp only [callFields, List.forall_mem_cons, List.not_mem_nil, false_imp_iff, implies_true, and_true,
      Value.HasNoDecimal, true_and]
    exact ⟨And.left, fun hinputs => ⟨hinputs, htypes⟩⟩
  cases t with
  | functionCall =>
    cases hcall
    exact hcallFields.symm
  | payableFunctionCall _ value =>
    cases hcall
    obtain ⟨n, rfl, -⟩ : value.IsAmount := hvalue
    simp only [HasNoDecimal, fields, List.forall_mem_append, hcallFields, List.forall_mem_singleton,
      Value.HasNoDecimal, and_true]
  | _ => exact absurd hcall (by simp [call?])

theorem exists_isShown_call (h : t.IsDecoded) (hcall : t.call? = some call) : ∃ d, t.IsShown d := by
  obtain ⟨kind, hkind, -⟩ := h.readable.exists_kind
  obtain ⟨target, name, types, inputs, hparts⟩ := h.call call hcall
  obtain ⟨coders, hcoders, hinputs⟩ := hparts.canonical
  obtain ⟨ws, hws⟩ := exists_areInputsWritten kind hcoders hparts.full hinputs
  have hrest : ∀ entry ∈ valueEntries (fun v => .text v.display) t, ∃ s, entry.2 = .text s := by
    cases t <;> simp [valueEntries]
  refine ⟨_, toDocument_call hcall hparts hkind hws, ofDocument_dict hkind
    (map_fst_callEntries hcall) (readSpecial_call ?_ hws _) ?_,
      (isPrintable_call hrest).trans (hws.printable.trans (hasNoDecimal_call hcall h.value hparts))⟩
  · cases t <;> cases hcall <;> cases hkind
    · exact .inr rfl
    · exact .inl rfl
  · have hvalue : t.nativeValue.IsAmount := h.value
    obtain rfl := hparts.eq
    cases t <;> cases hcall <;> cases hkind
    · exact readIntegers_call (readIntegers_eq (.cons ⟨rfl, readInteger_display _ hvalue⟩ .nil))
    · exact readIntegers_call rfl

/-- **A decoded transaction has a document, from which it is restored.** -/
theorem exists_isShown (h : t.IsDecoded) : ∃ d, t.IsShown d := by
  cases hcall : t.call? with
  | some call => exact exists_isShown_call h hcall
  | none => exact exists_isShown_plain h hcall

end Transaction

end Proposals
