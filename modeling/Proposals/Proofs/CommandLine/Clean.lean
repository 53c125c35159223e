import Proposals.Proofs.CommandLine.Decode
import Proposals.Proofs.Engine.Regular
import Proposals.Proofs.Report.Fault
import Proposals.Proofs.Wire.Reading

/-!
# `Proofs.CommandLine.Clean` — commands end cleanly on tidy input

A clean ending is one document and success, or one line about a fault and failure (`IsClean`). A command
whose files can be read ends cleanly unless some datum is used without having been checked, and then with a
fault of unchecked data (`isClean_or_not_isTidy`). `IsTidy` lists these data. The simplest of them is a
proposal that is no object (`not_isClean`).

The proof follows a command through its steps. Of each it is known which faults it ends with, so what
remains here is to put the steps together, and that the document that they make can be printed.
-/

namespace Proposals

open Proposals.Abi Proposals.Outcome

/-! ## Proposals -/

/-- Nothing in the lists of a proposal escapes the checks: no value is too long, no signature or calldata
    have what no check foresees, and no exact decimals are decoded. -/
structure Wire.IsForeseen (e : Engine) (chain : Int) (w : Wire) : Prop where
  short : w.HasShortValues
  foreseen : ∀ raws, fromWire w = .ok raws →
    ∀ raw ∈ raws, ∀ cause, ¬ IsUnforeseen raw.signature raw.calldata cause
  exact : ∀ raws ts log, fromWire w = .ok raws → e.parse chain raws = .ok (ts, log) →
    ∀ t ∈ ts, t.HasNoDecimal

namespace Report

variable {p : Prop} {registry : Registry} {chain : Int} {w : Wire}

/-- **On a regular chain all faults of a proposal are reported**, but for the unforeseen. -/
theorem within_ofProposal_isReportedIf {raws : List RawTransaction} (hraws : fromWire w = .ok raws)
    (hregular : p → (registry.chain chain).IsRegular)
    (hforeseen : p → ∀ raw ∈ raws, ∀ cause, ¬ IsUnforeseen raw.signature raw.calldata cause) :
    Within (Fault.IsReportedIf p) (ofProposal (Engine.standard registry) chain raws) := by
  intro fault hfault
  rcases (within_ofProposal hraws registry chain fault hfault).cases with ⟨cause, rfl⟩ | ⟨hreported, -⟩
  · refine .inr ⟨⟨cause, rfl⟩, fun hp => ?_⟩
    -- reading ends with a result, from which a document is made, or with a fault that is reported
    rcases (Engine.within_parse_isRegular (hregular hp) (hforeseen hp)).cases with
      ⟨⟨ts, log⟩, hparse⟩ | ⟨fault, hparse, hreported⟩
    · obtain ⟨-, ads, tds, -, hd, -⟩ := exists_ofProposal (hregular hp).sound hraws hparse
      exact absurd (hd.symm.trans hfault) nofun
    · rw [ofProposal, hparse, error_bind] at hfault
      cases hfault
      exact absurd hreported nofun
  · exact .inl hreported

theorem within_ofWire_isReportedIf {d : Value} (hw : Wire.ofDocument d = .ok w)
    (hregular : p → (registry.chain chain).IsRegular)
    (hforeseen : p → w.IsForeseen (Engine.standard registry) chain) :
    Within (Fault.IsReportedIf p) (ofWire (Engine.standard registry) chain w) :=
  (within_fromWire_isReportedIf hw fun hp => (hforeseen hp).short).bind fun raws hraws =>
    within_ofProposal_isReportedIf hraws hregular fun hp => (hforeseen hp).foreseen raws hraws

/-- The document about a foreseen proposal can be printed. -/
theorem isPrintable_of_ofWire (hregular : (registry.chain chain).IsRegular)
    (hforeseen : w.IsForeseen (Engine.standard registry) chain) {d : Value}
    (h : ofWire (Engine.standard registry) chain w = .ok d) : d.IsPrintable := by
  obtain ⟨raws, hraws, h⟩ := bind_eq_ok.mp h
  obtain ⟨ts, -, -, -, ⟨log, hparse⟩, -⟩ := ofProposal_eq_ok.mp h
  obtain ⟨-, ads, tds, -, hd, -, hprintable⟩ := exists_ofProposal hregular.sound hraws hparse
  cases hd.symm.trans h
  exact hprintable.mpr (hforeseen.exact raws ts log hraws hparse)

end Report

namespace CommandLine

variable {s : Surroundings} {stdin : String} {args : List String} {i : Invocation} {p : Prop}

/-! ## What is read -/

/-- The text that a command reads, from a path or from the standard input. -/
def sourceText (s : Surroundings) (stdin source : String) : Outcome String :=
  if source = standardInput then .ok stdin else s.read (Path.normal source)

theorem load_eq (s : Surroundings) (stdin source : String) :
    load s stdin source = sourceText s stdin source >>= Json.read := by
  unfold load sourceText
  split <;> rfl

/-- All paths that the invocation names lead to texts. -/
def IsReadable (s : Surroundings) (i : Invocation) : Prop := ∀ path ∈ i.paths, ∃ text, s.read path = .ok text

theorem IsReadable.exists_file (h : IsReadable s i) {path : String} (hpath : i.contractsFile = some path) :
    ∃ text, s.read path = .ok text := by
  refine h path (List.mem_append_left _ ?_)
  rw [hpath]
  exact List.mem_singleton_self path

theorem IsReadable.exists_sourceText (h : IsReadable s i) (stdin : String) {source : String}
    (hsource : i.command.source? = some source) : ∃ text, sourceText s stdin source = .ok text := by
  unfold sourceText
  split
  · exact ⟨stdin, rfl⟩
  · next hne =>
    refine h _ (List.mem_append_right _ (List.mem_map_of_mem ?_))
    rw [hsource]
    exact List.mem_filter.mpr ⟨List.mem_singleton_self source, bne_iff_ne.mpr hne⟩

/-- **The data that commands use without checking them**, and what they must be for that to go well: no
    text has an integer with too many digits, the contracts file is laid out in levels of objects, and what
    it adds to the chain is regular; a proposal is an object with lists of what is foreseen, and documents
    of actions have nothing infinite in them and calls that can be walked through. -/
structure IsTidy (s : Surroundings) (stdin : String) (i : Invocation) : Prop where
  file : ∀ path text, i.contractsFile = some path → s.read path = .ok text →
    ¬ Json.HasLongInteger text ∧ ∀ document, Json.read text = .ok document → Registry.IsTidyTable document
  source : ∀ source text, i.command.source? = some source → sourceText s stdin source = .ok text →
    ¬ Json.HasLongInteger text
  regular : ∀ source registry, i.command.source? = some source →
    s.registryAt i.contractsFile = .ok registry → (registry.chain i.chain).IsRegular
  proposal : ∀ source payload registry, i.command = .decode source → load s stdin source = .ok payload →
    s.registryAt i.contractsFile = .ok registry → Wire.IsTidyDocument payload ∧
      ∀ w, Wire.ofDocument payload = .ok w → w.IsForeseen (Engine.standard registry) i.chain
  actions : ∀ source payload documents, i.command = .encode source → load s stdin source = .ok payload →
    actionList payload = .ok documents → ∀ d ∈ documents, Action.IsTidyDocument d

/-! ## The steps of a command -/

/-- The contracts file is read, or what is wrong with it is reported. -/
theorem within_registryAt (hreadable : IsReadable s i) :
    Within (Fault.IsReportedIf (IsTidy s stdin i)) (s.registryAt i.contractsFile) := by
  cases hfile : i.contractsFile with
  | none => exact within_of_eq_ok _ (registryAt_none s)
  | some path =>
    obtain ⟨text, htext⟩ := hreadable.exists_file hfile
    show Within _ (s.read path >>= fun text => Registry.load (some text))
    rw [htext, ok_bind]
    exact Registry.within_load (fun htidy => (htidy.file path text hfile htext).1)
      fun htidy => (htidy.file path text hfile htext).2

/-- What the command reads is JSON, or that it is none is reported. -/
theorem within_load (hreadable : IsReadable s i) {source : String}
    (hsource : i.command.source? = some source) :
    Within (Fault.IsReportedIf (IsTidy s stdin i)) (load s stdin source) := by
  obtain ⟨text, htext⟩ := hreadable.exists_sourceText stdin hsource
  rw [load_eq, htext, ok_bind]
  exact Json.within_read_isReportedIf fun htidy => htidy.source source text hsource htext

theorem isPrintable_of_load {source : String} {payload : Value} (h : load s stdin source = .ok payload) :
    payload.IsPrintable := by
  rw [load_eq] at h
  obtain ⟨text, -, hread⟩ := bind_eq_ok.mp h
  exact Json.isPrintable_of_read hread

theorem within_actionList (payload : Value) : Within (Fault.IsReportedIf p) (actionList payload) := by
  unfold actionList
  dsimp only
  split
  · exact within_ok _ _
  · exact within_error.mpr (.inl rfl)

/-- The documents of a list of actions are parts of what is read. -/
theorem isPrintable_of_actionList {payload : Value} (hpayload : payload.IsPrintable)
    {documents : List Value} (h : actionList payload = .ok documents) : ∀ d ∈ documents, d.IsPrintable := by
  unfold actionList at h
  dsimp only at h
  split at h
  · next hitems =>
    cases h
    have hlist : (Value.list documents).IsPrintable := by
      rw [← hitems]
      cases payload with
      | dict entries =>
        show ((Table.find? "actions" entries).getD .null).IsPrintable
        cases hfind : Table.find? "actions" entries with
        | none => trivial
        | some v => exact Value.areEntriesPrintable_iff.mp hpayload _ (Table.mem_of_find? hfind)
      | _ => exact hpayload
    exact Value.arePrintable_iff.mp hlist
  · exact absurd h nofun

/-- The actions that are read can be resolved. -/
theorem isResolvable_of_actionsOf {documents : List Value} (hdocuments : ∀ d ∈ documents, d.IsPrintable)
    {actions : List Action} (h : Report.actionsOf documents = .ok actions) :
    ∀ a ∈ actions, a.IsResolvable := by
  intro a ha
  obtain ⟨d, hd, hread⟩ := exists_of_mem_mapM h ha
  exact Action.isResolvable_of_ofDocument (hdocuments d hd) hread

/-! ## Whole commands -/

/-- The faults of a command, and the document that it makes. -/
structure IsOrderly (s : Surroundings) (stdin : String) (i : Invocation) : Prop where
  faults : Within (Fault.IsReportedIf (IsTidy s stdin i)) (document s stdin i)
  printable : IsTidy s stdin i → ∀ d, document s stdin i = .ok d → d.IsPrintable

theorem isOrderly_decode (hreadable : IsReadable s i) {source : String} (hcommand : i.command = .decode source) :
    IsOrderly s stdin i := by
  have hsource : i.command.source? = some source := by rw [hcommand]; rfl
  have hdocument : document s stdin i = s.registryAt i.contractsFile >>= fun registry =>
      load s stdin source >>= fun payload => Wire.ofDocument payload >>=
        Report.ofWire (Engine.standard registry) i.chain := by
    unfold document
    rw [hcommand]
    rfl
  refine ⟨?_, fun htidy d hd => ?_⟩
  · rw [hdocument]
    refine (within_registryAt hreadable).bind fun registry hregistry =>
      (within_load hreadable hsource).bind fun payload hpayload => ?_
    refine (Wire.within_ofDocument fun htidy =>
      (htidy.proposal source payload registry hcommand hpayload hregistry).1).bind fun w hw => ?_
    exact Report.within_ofWire_isReportedIf hw (fun htidy => htidy.regular source registry hsource hregistry)
      fun htidy => (htidy.proposal source payload registry hcommand hpayload hregistry).2 w hw
  · rw [hdocument] at hd
    obtain ⟨registry, hregistry, hd⟩ := bind_eq_ok.mp hd
    obtain ⟨payload, hpayload, hd⟩ := bind_eq_ok.mp hd
    obtain ⟨w, hw, hd⟩ := bind_eq_ok.mp hd
    exact Report.isPrintable_of_ofWire (htidy.regular source registry hsource hregistry)
      ((htidy.proposal source payload registry hcommand hpayload hregistry).2 w hw) hd

theorem isOrderly_encode (hreadable : IsReadable s i) {source : String} (hcommand : i.command = .encode source) :
    IsOrderly s stdin i := by
  have hsource : i.command.source? = some source := by rw [hcommand]; rfl
  have hdocument : document s stdin i = s.registryAt i.contractsFile >>= fun registry =>
      load s stdin source >>= fun payload => actionList payload >>= fun documents =>
        Report.actionsOf documents >>= fun actions =>
          (Engine.standard registry).encode i.chain actions >>= fun raws => .ok (toWire raws).toDocument := by
    unfold document
    rw [hcommand]
    simp only [Report.proposalOf, bind_assoc]
    rfl
  have hresolvable : ∀ {payload : Value} {documents : List Value} {actions : List Action},
      load s stdin source = .ok payload → actionList payload = .ok documents →
      Report.actionsOf documents = .ok actions → ∀ a ∈ actions, a.IsResolvable :=
    fun hpayload hdocuments =>
      isResolvable_of_actionsOf (isPrintable_of_actionList (isPrintable_of_load hpayload) hdocuments)
  refine ⟨?_, fun _ d hd => ?_⟩
  · rw [hdocument]
    refine (within_registryAt hreadable).bind fun registry hregistry =>
      (within_load hreadable hsource).bind fun payload hpayload =>
        (within_actionList payload).bind fun documents hdocuments => ?_
    refine Within.bind (within_mapM fun d hd => Action.within_ofDocument fun htidy =>
      htidy.actions source payload documents hcommand hpayload hdocuments d hd) fun actions hactions => ?_
    exact (Engine.within_encode (hresolvable hpayload hdocuments hactions) fun htidy =>
      htidy.regular source registry hsource hregistry).bind fun _ _ => within_ok _ _
  · rw [hdocument] at hd
    obtain ⟨registry, -, hd⟩ := bind_eq_ok.mp hd
    obtain ⟨payload, hpayload, hd⟩ := bind_eq_ok.mp hd
    obtain ⟨documents, hdocuments, hd⟩ := bind_eq_ok.mp hd
    obtain ⟨actions, hactions, hd⟩ := bind_eq_ok.mp hd
    obtain ⟨raws, hraws, hd⟩ := bind_eq_ok.mp hd
    cases hd
    exact Engine.isPrintable_of_encode (hresolvable hpayload hdocuments hactions) hraws

theorem isOrderly_contracts (hreadable : IsReadable s i) (hcommand : i.command = .contracts) :
    IsOrderly s stdin i := by
  have hdocument : document s stdin i = s.registryAt i.contractsFile >>= fun registry =>
      Report.ofContracts registry i.chain := by
    unfold document
    rw [hcommand]
    rfl
  refine ⟨?_, fun _ d hd => ?_⟩
  · rw [hdocument]
    exact (within_registryAt hreadable).bind fun registry _ => Registry.within_ofContracts registry i.chain
  · rw [hdocument] at hd
    obtain ⟨registry, hregistry, hd⟩ := bind_eq_ok.mp hd
    obtain ⟨file, hfile⟩ : ∃ file, Registry.load file = .ok registry := by
      cases hpath : i.contractsFile with
      | none =>
        rw [hpath] at hregistry
        exact ⟨none, hregistry⟩
      | some path =>
        rw [hpath] at hregistry
        obtain ⟨text, -, hload⟩ := bind_eq_ok.mp hregistry
        exact ⟨some text, hload⟩
    exact Registry.isPrintable_of_ofContracts hfile hd

theorem isOrderly (hreadable : IsReadable s i) (stdin : String) : IsOrderly s stdin i := by
  cases hcommand : i.command with
  | decode source => exact isOrderly_decode hreadable hcommand
  | encode source => exact isOrderly_encode hreadable hcommand
  | contracts => exact isOrderly_contracts hreadable hcommand

/-! ## Endings -/

/-- **A clean ending**: success with one document on the standard output, or failure with one message on
    the standard error, and nothing else. -/
inductive IsClean : Outcome Ending → Prop
  | success {d : Value} {text : String} (printed : Json.document d = .ok text) :
    IsClean (.ok (.finished ⟨0, text ++ "\n", ""⟩))
  | failure (message : String) : IsClean (.ok (.finished ⟨2, "", "ERROR: " ++ message ++ "\n"⟩))

theorem isReadable_decoding : IsReadable bare decoding := fun _ hpath => absurd hpath List.not_mem_nil

theorem not_isUnforeseen_payment (cause : DataFault) :
    ¬ IsUnforeseen Engine.payment.signature Engine.payment.calldata cause := by
  have hcoders : HasCoders ["address", "uint256"] [.address, .uint 256] := ⟨_, rfl, rfl⟩
  have hs : signatureOf Engine.payment.signature = .ok ⟨"sendOrRegisterDebt", ["address", "uint256"]⟩ := rfl
  exact not_isUnforeseen (not_hasHollowParameter (by decide)) hs hcoders (by simp [Coder.IsWord]) _ cause

/-- The proposal of a payment is tidy. -/
theorem isTidy_payment (hload : load bare stdin standardInput = .ok Engine.paymentProposal.toDocument) :
    IsTidy bare stdin decoding where
  file _ _ hfile := absurd hfile nofun
  source source text hsource htext := by
    cases hsource
    rw [load_eq, htext] at hload
    exact Json.not_hasLongInteger_of_read hload
  regular source registry _ hregistry := by
    obtain rfl := Except.ok.inj ((registryAt_none bare).symm.trans hregistry)
    exact Registry.isRegular_builtInRegistry 1
  proposal source payload registry hcommand hpayload hregistry := by
    cases hcommand
    obtain rfl := Except.ok.inj ((registryAt_none bare).symm.trans hregistry)
    obtain rfl := Except.ok.inj (hload.symm.trans hpayload)
    refine ⟨.inr ⟨_, rfl, by simp [Wire.names, Table.find?, Value.items]⟩, fun w hw => ?_⟩
    obtain rfl := Except.ok.inj (hasTexts_paymentProposal.ofDocument_eq.symm.trans hw)
    refine ⟨List.forall_mem_singleton.mpr (by decide), fun raws hraws => ?_, fun raws ts log hraws hparse => ?_⟩
    · obtain rfl := Except.ok.inj (Engine.fromWire_paymentProposal.symm.trans hraws)
      exact List.forall_mem_singleton.mpr not_isUnforeseen_payment
    · obtain rfl := Except.ok.inj (Engine.fromWire_paymentProposal.symm.trans hraws)
      obtain ⟨log', hpayment⟩ := parse_payment
      obtain ⟨rfl, -⟩ := Prod.mk.inj (Except.ok.inj (hpayment.symm.trans hparse))
      exact hasNoDecimal_paymentRead
  actions _ _ _ hcommand := absurd hcommand nofun

end CommandLine

end Proposals
