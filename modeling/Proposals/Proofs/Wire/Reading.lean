import Proposals.Proofs.Registry.File
import Proposals.Proofs.Wire.Lists

/-!
# `Proofs.Wire.Reading` — how reading proposals can fail

A proposal comes from outside and may be of any shape. A missing list is reported, and so is what a list
should not hold; but that the proposal is an object, that its lists can be walked through, and that a value
is not written with thousands of zeros in front is not checked (`Wire.IsTidyDocument`, `Wire.HasShortValues`).
-/

namespace Proposals

open Proposals.Number Proposals.Outcome Proposals.Text

variable {p : Prop} {d : Value} {w : Wire}

namespace Wire

/-- One of the lists is missing, or the proposal is an object whose lists can be walked through. -/
def IsTidyDocument (d : Value) : Prop :=
  (∃ name ∈ names, Registry.hasKey name d = .ok false) ∨ ∃ entries, d = .dict entries ∧
    ∀ name ∈ names, ∃ vs, ((Table.find? name entries).getD .null).items = .ok vs

/-- No value is written with more digits than any integer that is read. -/
def HasShortValues (w : Wire) : Prop := ∀ v ∈ w.values, (strip v.display.toList).length ≤ maxDigits

/-- Where every name can be looked for, it is known which are missing. -/
theorem exists_missingNames {listed : List String} (h : ∀ name ∈ listed, ∃ b, Registry.hasKey name d = .ok b) :
    ∃ missing, missingNames d listed = .ok missing ∧
      (missing = [] ↔ ¬ ∃ name ∈ listed, Registry.hasKey name d = .ok false) := by
  induction listed with
  | nil => exact ⟨[], rfl, by simp⟩
  | cons first listed ih =>
    obtain ⟨⟨present, hpresent⟩, hlisted⟩ := List.forall_mem_cons.mp h
    obtain ⟨missing, hmissing, hempty⟩ := ih hlisted
    unfold missingNames
    rw [hpresent, ok_bind, hmissing, ok_bind]
    cases present with
    | false => exact ⟨_, rfl, by simp [hpresent]⟩
    | true => exact ⟨_, rfl, by simpa [hpresent] using hempty⟩

/-- A list of a document is walked through, or the fault is about unchecked data. -/
theorem textsOf_cases (entries : List (String × Value)) (name : String) :
    ((∃ us, textsOf (.dict entries) name = .ok us) ∧
        ∃ vs, ((Table.find? name entries).getD .null).items = .ok vs) ∨
      (∃ cause, textsOf (.dict entries) name = .error (.data cause)) ∧
        ∀ vs, ((Table.find? name entries).getD .null).items ≠ .ok vs := by
  have htexts : textsOf (.dict entries) name = (((Table.find? name entries).getD .null).items >>=
      fun vs => .ok (vs.map fun v => .text v.display)) := rfl
  rw [htexts]
  generalize (Table.find? name entries).getD .null = v
  cases v with
  | list | text | bytes | dict => exact .inl ⟨⟨_, rfl⟩, _, rfl⟩
  | _ => exact .inr ⟨⟨_, rfl⟩, fun _ => nofun⟩

/-- What is read of a list is known, or there is a fault about unchecked data. -/
theorem within_textsOf (entries : List (String × Value)) (name : String) :
    Within (fun fault => ∃ cause, fault = .data cause) (textsOf (.dict entries) name) := by
  rcases textsOf_cases entries name with ⟨⟨us, hus⟩, -⟩ | ⟨⟨cause, hfault⟩, -⟩
  · exact within_of_eq_ok _ hus
  · exact hfault ▸ within_error.mpr ⟨cause, rfl⟩

/-- A list that is read is one that can be walked through. -/
theorem exists_textsOf_iff {entries : List (String × Value)} {name : String} :
    (∃ us, textsOf (.dict entries) name = .ok us) ↔
      ∃ vs, ((Table.find? name entries).getD .null).items = .ok vs := by
  rcases textsOf_cases entries name with ⟨hus, hvs⟩ | ⟨⟨cause, hfault⟩, hnot⟩
  · exact iff_of_true hus hvs
  · refine iff_of_false ?_ fun ⟨vs, hvs⟩ => hnot vs hvs
    rintro ⟨us, hus⟩
    exact absurd (hus.symm.trans hfault) nofun

/-- **How an object that lacks nothing is read**: as four lists if all of them can be walked through, and
    with a fault about unchecked data if not. -/
theorem ofDocument_dict_cases {entries : List (String × Value)}
    (hmissing : missingNames (.dict entries) names = .ok []) :
    (∃ w, ofDocument (.dict entries) = .ok w) ∧
        (∀ name ∈ names, ∃ vs, ((Table.find? name entries).getD .null).items = .ok vs) ∨
      (∃ cause, ofDocument (.dict entries) = .error (.data cause)) ∧
        ¬ ∀ name ∈ names, ∃ vs, ((Table.find? name entries).getD .null).items = .ok vs := by
  have hread : ofDocument (.dict entries) = (do
      let targets ← textsOf (.dict entries) "targets"
      let values ← textsOf (.dict entries) "values"
      let signatures ← textsOf (.dict entries) "signatures"
      let calldatas ← textsOf (.dict entries) "calldatas"
      .ok (Wire.mk targets values signatures calldatas)) := by
    unfold ofDocument
    rw [hmissing]
    rfl
  have hwithin : Within (fun fault => ∃ cause, fault = .data cause) (ofDocument (.dict entries)) :=
    hread ▸ (within_textsOf entries _).bind fun _ _ => (within_textsOf entries _).bind fun _ _ =>
      (within_textsOf entries _).bind fun _ _ => (within_textsOf entries _).bind fun _ _ => within_ok _ _
  simp only [← exists_textsOf_iff, names, List.forall_mem_cons]
  rcases hwithin.cases with ⟨w, hw⟩ | ⟨fault, hfault, cause, rfl⟩
  · have hlists := hread ▸ hw
    obtain ⟨targets, htargets, hlists⟩ := bind_eq_ok.mp hlists
    obtain ⟨values, hvalues, hlists⟩ := bind_eq_ok.mp hlists
    obtain ⟨signatures, hsignatures, hlists⟩ := bind_eq_ok.mp hlists
    obtain ⟨calldatas, hcalldatas, -⟩ := bind_eq_ok.mp hlists
    exact .inl ⟨⟨w, hw⟩, ⟨_, htargets⟩, ⟨_, hvalues⟩, ⟨_, hsignatures⟩, ⟨_, hcalldatas⟩,
      List.forall_mem_nil _⟩
  · refine .inr ⟨⟨cause, hfault⟩, ?_⟩
    rintro ⟨⟨targets, htargets⟩, ⟨values, hvalues⟩, ⟨signatures, hsignatures⟩, ⟨calldatas, hcalldatas⟩, -⟩
    rw [hread, htargets, hvalues, hsignatures, hcalldatas] at hfault
    cases hfault

/-- **How a document is read**: as four lists or with a report of what is missing if it is tidy, and with a
    fault about unchecked data if it is not. -/
theorem ofDocument_cases (d : Value) :
    (((∃ w, ofDocument d = .ok w) ∨
        ∃ missing, ofDocument d = .error (.malformed (.missingLists missing))) ∧ IsTidyDocument d) ∨
      (∃ cause, ofDocument d = .error (.data cause)) ∧ ¬ IsTidyDocument d := by
  rcases Registry.hasKey_cases d with hfound | ⟨hfault, hkind⟩
  · obtain ⟨missing, hmissing, hempty⟩ := exists_missingNames fun name (_ : name ∈ names) => hfound name
    by_cases hsome : ∃ name ∈ names, Registry.hasKey name d = .ok false
    · have hlacks : (!missing.isEmpty) = true := by
        rw [Bool.not_eq_true', List.isEmpty_eq_false_iff]
        exact fun hnil => hempty.mp hnil hsome
      unfold ofDocument
      rw [hmissing, ok_bind, if_pos hlacks]
      exact .inl ⟨.inr ⟨missing, rfl⟩, .inl hsome⟩
    · obtain rfl := hempty.mpr hsome
      cases d with
      | dict entries =>
        rcases ofDocument_dict_cases hmissing with ⟨hw, hwalk⟩ | ⟨hfault, hnot⟩
        · exact .inl ⟨.inl hw, .inr ⟨entries, rfl, hwalk⟩⟩
        · refine .inr ⟨hfault, ?_⟩
          rintro (hlacks | ⟨_, heq, hwalk⟩)
          · exact hsome hlacks
          · cases heq
            exact hnot hwalk
      | _ =>
        unfold ofDocument
        rw [hmissing]
        exact .inr ⟨⟨_, rfl⟩, fun h => h.elim hsome fun ⟨_, heq, _⟩ => nomatch heq⟩
  · have hmissing : missingNames d names = .error (.data .wrongKind) := by
      rw [names, missingNames, hfault, error_bind]
    unfold ofDocument
    rw [hmissing, error_bind]
    exact .inr ⟨⟨_, rfl⟩, fun h => h.elim (fun ⟨_, _, hname⟩ => nomatch (hfault _).symm.trans hname)
      fun ⟨entries, heq, _⟩ => hkind entries heq⟩

/-- **Reading a proposal reports what is missing**, if it is tidy. -/
theorem within_ofDocument (hd : p → IsTidyDocument d) : Within (Fault.IsReportedIf p) (ofDocument d) := by
  rcases ofDocument_cases d with ⟨⟨w, hw⟩ | ⟨missing, hmissing⟩, -⟩ | ⟨⟨cause, hfault⟩, hnot⟩
  · exact within_of_eq_ok _ hw
  · rw [hmissing]
    exact within_error.mpr (.inl rfl)
  · rw [hfault]
    exact within_error.mpr (.inr ⟨⟨cause, rfl⟩, fun hp => hnot (hd hp)⟩)

/-- The calldata in a proposal become texts. -/
theorem isText_of_ofDocument (h : ofDocument d = .ok w) : ∀ v ∈ w.calldatas, ∃ s, v = .text s := by
  obtain ⟨missing, -, h⟩ := bind_eq_ok.mp h
  dsimp only at h
  split at h
  · exact absurd h nofun
  · obtain ⟨targets, -, h⟩ := bind_eq_ok.mp h
    obtain ⟨values, -, h⟩ := bind_eq_ok.mp h
    obtain ⟨signatures, -, h⟩ := bind_eq_ok.mp h
    obtain ⟨calldatas, hcalldatas, h⟩ := bind_eq_ok.mp h
    cases h
    cases d with
    | dict entries =>
      obtain ⟨vs, -, h⟩ := bind_eq_ok.mp hcalldatas
      cases h
      exact List.forall_mem_map.mpr fun _ _ => ⟨_, rfl⟩
    | _ => exact absurd hcalldatas nofun

end Wire

/-- **The lists of a proposal are read, or what is wrong with them is reported**, if their values are
    short. -/
theorem within_fromWire_isReportedIf (hw : Wire.ofDocument d = .ok w) (hvalues : p → w.HasShortValues) :
    Within (Fault.IsReportedIf p) (fromWire w) := by
  rcases fromWire_cases (Wire.isText_of_ofDocument hw) with ⟨⟨raws, hraws⟩ | ⟨cause, hfault⟩, -⟩ |
    ⟨hfault, hmeets⟩
  · exact within_of_eq_ok _ hraws
  · rw [hfault]
    exact within_error.mpr (.inl rfl)
  · rw [hfault]
    refine within_error.mpr (.inr ⟨⟨_, rfl⟩, fun hp => ?_⟩)
    obtain ⟨v, hv, hover⟩ := hmeets.exists_isOverlong
    exact absurd (hvalues hp v hv) (Nat.not_le.mpr hover.long)

end Proposals
