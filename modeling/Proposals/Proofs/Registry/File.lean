import Proposals.Proofs.Transaction.Reading
import Proposals.Report

/-!
# `Proofs.Registry.File` — how contracts files can be wrong

A contracts file may hold any JSON value. That it is no object, that an entry has no address and that an
address is none is reported; the levels of objects below the outermost, the keys of chains and the
functions of contracts are not looked at before they are used (`IsTidyTable`, `within_load`).

What is listed of a registry has been in a JSON text or in the built-in table, so a list of contracts can
always be printed (`isPrintable_of_ofContracts`).
-/

namespace Proposals

open Proposals.Outcome

/-- The members of what can be printed can be printed. -/
theorem Value.IsPrintable.items {v : Value} (hv : v.IsPrintable) {vs : List Value}
    (h : v.items = .ok vs) : Value.ArePrintable vs := by
  rw [Value.arePrintable_iff]
  cases v with
  | list items =>
    cases h
    exact Value.arePrintable_iff.mp hv
  | text | bytes | dict =>
    cases h
    exact List.forall_mem_map.mpr fun _ _ => trivial
  | _ => exact absurd h nofun

namespace Json

/-- Reading a text reports what breaks the grammar. -/
theorem within_read_isReportedIf {p : Prop} {text : String} (h : p → ¬ HasLongInteger text) :
    Within (Fault.IsReportedIf p) (read text) :=
  (within_read text).mono fun fault hfault => by
    rcases hfault with ⟨cause, rfl⟩ | ⟨rfl, hlong⟩
    · exact .inl rfl
    · exact .inr ⟨⟨_, rfl⟩, fun hp => h hp hlong⟩

end Json

namespace Registry

variable {p : Prop}

/-! ## Faults -/

/-- Any key can be looked for in a value, or none because of its kind. -/
theorem hasKey_cases (v : Value) : (∀ key, ∃ found, hasKey key v = .ok found) ∨
    (∀ key, hasKey key v = .error (.data .wrongKind)) ∧ ∀ entries, v ≠ .dict entries := by
  cases v with
  | dict | list | text => exact .inl fun _ => ⟨_, rfl⟩
  | _ => exact .inr ⟨fun _ => rfl, fun _ => nofun⟩

/-- The entry of a contract has no address, or is an object whose functions, if given, can be walked
    through. -/
def IsTidySpec (spec : Value) : Prop :=
  hasKey "address" spec = .ok false ∨ ∃ entries, spec = .dict entries ∧
    ∀ abi, Table.find? "abi" entries = some abi → abi = .null ∨ ∃ vs, abi.items = .ok vs

/-- The entry of a chain has an integer as its key, and is an object with tidy entries. -/
structure IsTidyChain (entry : String × Value) : Prop where
  key : ∃ id, (Value.text entry.1).toInteger = .ok id
  specs : ∃ specs, entry.2 = .dict specs ∧ ∀ spec ∈ specs, IsTidySpec spec.2

/-- The chains of the table are tidy, if it is one. -/
def IsTidyTable (document : Value) : Prop :=
  ∀ chains, document = .dict chains → ∀ chain ∈ chains, IsTidyChain chain

theorem within_contractOf (name : String) {spec : Value} (h : p → IsTidySpec spec) :
    Within (Fault.IsReportedIf p) (contractOf name spec) := by
  -- an entry of another kind is not tidy if it passes for one with an address
  have huntidy : ∀ {cause : DataFault}, (∀ entries, spec ≠ .dict entries) →
      hasKey "address" spec ≠ .ok false → (Fault.data cause).IsReportedIf p := fun hkind hkey =>
    .inr ⟨⟨_, rfl⟩, fun hp => (h hp).elim hkey fun ⟨entries, hspec, _⟩ => hkind entries hspec⟩
  unfold contractOf
  rcases hasKey_cases spec with hfound | ⟨hfault, hkind⟩
  · obtain ⟨found, hfound⟩ := hfound "address"
    rw [hfound, ok_bind]
    cases found with
    | false => exact within_error.mpr (.inl rfl)
    | true =>
      have hkey : hasKey "address" spec ≠ .ok false := fun hkey => absurd (hfound.symm.trans hkey) nofun
      cases spec with
      | dict entries =>
        have habi : Within (Fault.IsReportedIf p) (abiOf name (Table.find? "abi" entries)) := by
          unfold abiOf
          split
          · exact within_ok _ _
          · exact within_ok _ _
          · next abi hnull habi =>
            refine Transaction.within_walk fun hp => ?_
            obtain ⟨entries', heq, hwalk⟩ := (h hp).resolve_left hkey
            cases heq
            exact (hwalk abi habi).resolve_left hnull
        exact habi.bind fun _ _ => within_ok _ _
      | _ => exact within_error.mpr (huntidy (fun _ => nofun) hkey)
  · rw [hfault, error_bind]
    exact within_error.mpr (huntidy hkind fun hkey => absurd ((hfault _).symm.trans hkey) nofun)

theorem within_overlayContracts {table : List (String × Contract)} {specs : List (String × Value)}
    (h : p → ∀ spec ∈ specs, IsTidySpec spec.2) :
    Within (Fault.IsReportedIf p) (overlayContracts table specs) := by
  induction specs generalizing table with
  | nil => exact within_ok _ _
  | cons spec specs ih =>
    exact (within_contractOf spec.1 fun hp => h hp spec List.mem_cons_self).bind fun _ _ =>
      ih fun hp other hother => h hp other (List.mem_cons_of_mem _ hother)

theorem within_overlay {table : Overlay} {chains : List (String × Value)}
    (h : p → ∀ chain ∈ chains, IsTidyChain chain) :
    Within (Fault.IsReportedIf p) (overlay table chains) := by
  induction chains generalizing table with
  | nil => exact within_ok _ _
  | cons chain chains ih =>
    obtain ⟨key, contracts⟩ := chain
    have htidy : p → IsTidyChain (key, contracts) := fun hp => h hp _ List.mem_cons_self
    have hkey : Within (Fault.IsReportedIf p) (Value.text key).toInteger := by
      refine fun fault hfault => .inr ⟨?_, fun hp => ?_⟩
      · have hdata : Within (fun fault => ∃ cause, fault = .data cause) (Value.textInteger key.toList) := by
          unfold Value.textInteger
          split
          · exact within_ok _ _
          · exact within_error.mpr ⟨_, rfl⟩
        exact hdata fault hfault
      · obtain ⟨id, hid⟩ := (htidy hp).key
        exact absurd (hid.symm.trans hfault) nofun
    refine hkey.bind fun id _ => ?_
    split
    · next specs =>
      refine (within_overlayContracts fun hp => ?_).bind fun _ _ =>
        ih fun hp other hother => h hp other (List.mem_cons_of_mem _ hother)
      obtain ⟨specs', heq, hspecs⟩ := (htidy hp).specs
      cases heq
      exact hspecs
    · next hnot =>
      refine within_error.mpr (.inr ⟨⟨_, rfl⟩, fun hp => ?_⟩)
      obtain ⟨specs, heq, -⟩ := (htidy hp).specs
      exact hnot specs heq

/-- Laying out a table reports addresses that are none. -/
theorem within_ofEntries (entries : List (Int × List Contract)) :
    Within (Fault.IsReportedIf p) (ofEntries entries) := by
  have hchain : ∀ (chain : Chain) (cs : List Contract),
      Within (Fault.IsReportedIf p) (chain.addAll cs) := by
    intro chain cs
    induction cs generalizing chain with
    | nil => exact within_ok _ _
    | cons c cs ih =>
      have hc : Within (Fault.IsReportedIf p) c.normalized := by
        unfold Contract.normalized
        split
        · exact within_ok _ _
        · exact within_error.mpr (.inl rfl)
      exact hc.bind fun _ _ => ih _
  unfold ofEntries
  generalize ({} : Registry) = r
  induction entries generalizing r with
  | nil => exact within_ok _ _
  | cons entry entries ih =>
    exact ((hchain _ entry.2).bind fun _ _ => within_ok _ _).bind fun r' _ => ih r'

/-- **A contracts file is read, or what is wrong with it is reported**, if it is tidy. -/
theorem within_load {text : String} (hlong : p → ¬ Json.HasLongInteger text)
    (htidy : p → ∀ document, Json.read text = .ok document → IsTidyTable document) :
    Within (Fault.IsReportedIf p) (load (some text)) := by
  refine (Json.within_read_isReportedIf hlong).bind fun document hdocument => ?_
  cases document with
  | dict chains =>
    exact (within_overlay fun hp => htidy hp _ hdocument chains rfl).bind fun _ _ => within_ofEntries _
  | _ => exact within_error.mpr (.inl rfl)

/-- A document can be a contracts file. If it leaves one chain with contracts whose addresses are in normal
    form, these make up the registry. -/
theorem exists_load_eq_ok {entries : List (String × Value)} (hd : (Value.dict entries).IsDocument) {id : Int}
    {cs : List Contract} (h : overlay builtInOverlay entries = .ok [(id, cs.map fun c => (c.name, c))])
    (hcs : ∀ c ∈ cs, IsNormalAddress c.address) : ∃ text, load (some text) = .ok (onChain id cs) := by
  obtain ⟨text, htext⟩ := Json.exists_document_iff.mpr hd.isPrintable
  refine ⟨text, ?_⟩
  show (Json.read text >>= ofDocument) = _
  rw [(Json.read_document hd htext).1, ok_bind, ofDocument, h, ok_bind]
  exact ofOverlay_eq_ok hcs

/-! ## Lists of contracts -/

theorem arePrintable_knownAbi (name : String) : Value.ArePrintable (knownAbi name) :=
  Value.arePrintable_iff.mpr (List.forall_mem_map.mpr fun _ _ => trivial)

/-- The functions in a table by name can be printed. -/
def IsPrintableTable (table : List (String × Contract)) : Prop :=
  ∀ entry ∈ table, Value.ArePrintable entry.2.abi

theorem IsPrintableTable.insert {table : List (String × Contract)} (h : IsPrintableTable table)
    {name : String} {c : Contract} (hc : Value.ArePrintable c.abi) :
    IsPrintableTable (Table.insert name c table) := by
  intro entry hentry
  rcases Table.mem_insert hentry with rfl | hentry
  · exact hc
  · exact h entry hentry

theorem arePrintable_of_contractOf {name : String} {spec : Value} (hspec : spec.IsPrintable) {c : Contract}
    (h : contractOf name spec = .ok c) : Value.ArePrintable c.abi := by
  obtain ⟨found, -, h⟩ := bind_eq_ok.mp h
  cases found with
  | false => cases h
  | true =>
    cases spec with
    | dict entries =>
      obtain ⟨abi, habi, h⟩ := bind_eq_ok.mp h
      cases h
      unfold abiOf at habi
      split at habi
      · cases habi
        exact arePrintable_knownAbi name
      · cases habi
        exact arePrintable_knownAbi name
      · next hfind =>
        exact (Value.areEntriesPrintable_iff.mp hspec _ (Table.mem_of_find? hfind)).items habi
    | _ => cases h

theorem isPrintableTable_of_overlayContracts {table table' : List (String × Contract)}
    (htable : IsPrintableTable table) {specs : List (String × Value)}
    (hspecs : ∀ spec ∈ specs, spec.2.IsPrintable) (h : overlayContracts table specs = .ok table') :
    IsPrintableTable table' := by
  induction specs generalizing table with
  | nil => cases h; exact htable
  | cons spec specs ih =>
    obtain ⟨hspec, hspecs⟩ := List.forall_mem_cons.mp hspecs
    obtain ⟨c, hc, h⟩ := bind_eq_ok.mp h
    exact ih (htable.insert (arePrintable_of_contractOf hspec hc)) hspecs h

theorem isPrintableTable_of_overlay {table table' : Overlay}
    (htable : ∀ entry ∈ table, IsPrintableTable entry.2) {chains : List (String × Value)}
    (hchains : ∀ chain ∈ chains, chain.2.IsPrintable) (h : overlay table chains = .ok table') :
    ∀ entry ∈ table', IsPrintableTable entry.2 := by
  induction chains generalizing table with
  | nil => cases h; exact htable
  | cons chain chains ih =>
    obtain ⟨hchain, hchains⟩ := List.forall_mem_cons.mp hchains
    obtain ⟨id, -, h⟩ := bind_eq_ok.mp h
    split at h
    · next specs hspecs =>
      obtain ⟨laid, hlaid, h⟩ := bind_eq_ok.mp h
      rw [hspecs] at hchain
      have hbefore : IsPrintableTable ((Table.find? id table).getD []) := by
        cases hfind : Table.find? id table with
        | none => exact List.forall_mem_nil _
        | some before => exact htable _ (Table.mem_of_find? hfind)
      have hlaid := isPrintableTable_of_overlayContracts hbefore
        (Value.areEntriesPrintable_iff.mp hchain) hlaid
      refine ih (fun entry hentry => ?_) hchains h
      rcases Table.mem_insert hentry with rfl | hentry
      · exact hlaid
      · exact htable entry hentry
    · exact absurd h nofun

theorem isPrintableTable_of_addAll {chain chain' : Chain} (hchain : IsPrintableTable chain.byName)
    {cs : List Contract} (hcs : ∀ c ∈ cs, Value.ArePrintable c.abi) (h : chain.addAll cs = .ok chain') :
    IsPrintableTable chain'.byName := by
  intro entry hentry
  rcases Chain.mem_addAll h hentry with hmem | ⟨c, hc, hnormal⟩
  · exact hchain entry hmem
  · obtain ⟨-, -, habi⟩ := Contract.normalized_eq_ok hnormal
    exact habi ▸ hcs c hc

/-- What the registry knows of each chain can be printed if its entries can. -/
theorem isPrintableTable_of_ofEntries {entries : List (Int × List Contract)}
    (hentries : ∀ entry ∈ entries, ∀ c ∈ entry.2, Value.ArePrintable c.abi) {r : Registry}
    (h : ofEntries entries = .ok r) (id : Int) : IsPrintableTable (r.chain id).byName := by
  have hall : ∀ {r' : Registry}, (∀ id, IsPrintableTable (r'.chain id).byName) →
      r'.addChains entries = .ok r → IsPrintableTable (r.chain id).byName := by
    clear h
    induction entries with
    | nil =>
      intro r' hr' h
      cases h
      exact hr' id
    | cons entry entries ih =>
      intro r' hr' h
      obtain ⟨hentry, hentries⟩ := List.forall_mem_cons.mp hentries
      obtain ⟨r'', hr'', h⟩ := bind_eq_ok.mp h
      obtain ⟨chain, hchain, hr''⟩ := bind_eq_ok.mp hr''
      cases hr''
      have hchain := isPrintableTable_of_addAll (hr' entry.1) hentry hchain
      refine ih hentries (fun id' => ?_) h
      show IsPrintableTable ((Table.find? id' (Table.insert entry.1 chain r'.chains)).getD {}).byName
      rw [Table.find?_insert]
      split
      · exact hchain
      · exact hr' id'
  exact hall (fun _ _ hentry => absurd hentry List.not_mem_nil) h

theorem isPrintableTable_of_ofOverlay {table : Overlay}
    (htable : ∀ entry ∈ table, IsPrintableTable entry.2) {r : Registry} (h : ofOverlay table = .ok r)
    (id : Int) : IsPrintableTable (r.chain id).byName := by
  refine isPrintableTable_of_ofEntries (List.forall_mem_map.mpr fun entry hentry => ?_) h id
  exact List.forall_mem_map.mpr fun c hc => htable entry hentry c hc

theorem isPrintableTable_of_load {file : Option String} {r : Registry} (h : load file = .ok r) (id : Int) :
    IsPrintableTable (r.chain id).byName := by
  have hbuiltIn : ∀ entry ∈ builtInOverlay, IsPrintableTable entry.2 := by
    refine List.forall_mem_singleton.mpr (List.forall_mem_map.mpr fun c hc => ?_)
    obtain ⟨⟨name, address⟩, -, rfl⟩ := List.mem_map.mp hc
    exact arePrintable_knownAbi name
  cases file with
  | none => exact isPrintableTable_of_ofOverlay hbuiltIn h id
  | some text =>
    obtain ⟨document, hdocument, h⟩ := bind_eq_ok.mp h
    have hprint := Json.isPrintable_of_read hdocument
    cases document with
    | dict chains =>
      obtain ⟨table, hover, h⟩ := bind_eq_ok.mp h
      exact isPrintableTable_of_ofOverlay
        (isPrintableTable_of_overlay hbuiltIn (Value.areEntriesPrintable_iff.mp hprint) hover) h id
    | _ => exact absurd h nofun

/-- Listing the contracts of a chain reports that there are none. -/
theorem within_ofContracts (r : Registry) (id : Int) :
    Within (Fault.IsReportedIf p) (Report.ofContracts r id) := by
  unfold Report.ofContracts
  split
  · exact within_error.mpr (.inl rfl)
  · exact within_ok _ _

/-- **A list of contracts can be printed**, whatever the contracts file. -/
theorem isPrintable_of_ofContracts {file : Option String} {r : Registry} (hr : load file = .ok r)
    {id : Int} {d : Value} (h : Report.ofContracts r id = .ok d) : d.IsPrintable := by
  unfold Report.ofContracts at h
  split at h
  · exact absurd h nofun
  · cases h
    refine Value.arePrintable_iff.mpr (List.forall_mem_map.mpr fun c hc => ?_)
    obtain ⟨entry, hentry, rfl⟩ := List.mem_map.mp hc
    exact ⟨trivial, trivial, isPrintableTable_of_load hr id entry (List.mem_mergeSort.mp hentry), trivial⟩

end Registry

end Proposals
