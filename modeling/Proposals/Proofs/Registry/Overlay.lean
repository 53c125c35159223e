import Proposals.Proofs.Registry.Entries
import Proposals.Proofs.Registry.File

/-!
# `Proofs.Registry.Overlay` — a contracts file laid over the built-in table

A contracts file may spell a chain with several keys, and give a name under several of them. What counts is
the last entry it has for a name on a chain, and where it has none, the built-in one (`load_overlays`).

A table by name is looked at through the contracts that it shows under each name, with their addresses in
normal form (`shown?`). Each entry of a file changes what is shown under one name of one chain, so the loops
over the names and over the chains add up to the last entries (`exists_overlayContracts`, `exists_overlay`),
and the registry of a table finds what the table shows (`exists_ofOverlay`).
-/

namespace Proposals.Registry

open Proposals.Number Proposals.Outcome

variable {id : Int} {table : List (String × Contract)} {r : Registry} {c : Contract}

/-! ## Listing -/

theorem isByName_foldl_add {chain : Chain} (h : IsByName chain.byName) (cs : List Contract) :
    IsByName (cs.foldl Chain.add chain).byName := by
  induction cs generalizing chain with
  | nil => exact h
  | cons c cs ih => exact ih (h.insert c)

theorem isByName_of_ofEntries {entries : List (Int × List Contract)} (h : ofEntries entries = .ok r)
    (id : Int) : IsByName (r.chain id).byName := by
  rw [chain_of_entriesOn h]
  exact isByName_foldl_add IsByName.nil _

/-- What is found on a chain by name is what is listed of it with this name. -/
theorem lookup?_eq_some_iff {entries : List (Int × List Contract)} (h : ofEntries entries = .ok r)
    {name : String} : r.lookup? id name = some c ↔ c ∈ r.contracts id ∧ c.name = name := by
  obtain ⟨hkeys, hnames⟩ := isByName_of_ofEntries h id
  unfold contracts lookup?
  simp only [List.mem_map, List.mem_mergeSort]
  constructor
  · intro hfind
    have hmem := Table.mem_of_find? hfind
    exact ⟨⟨(name, c), hmem, rfl⟩, hnames _ hmem⟩
  · rintro ⟨⟨entry, hentry, rfl⟩, rfl⟩
    rw [hnames entry hentry]
    exact Table.find?_of_mem hkeys hentry

/-- The contracts of a chain are listed in the order of their names, each name once. -/
theorem pairwise_contracts {entries : List (Int × List Contract)} (h : ofEntries entries = .ok r)
    (id : Int) : (r.contracts id).Pairwise fun c d => c.name < d.name := by
  obtain ⟨hkeys, hnames⟩ := isByName_of_ofEntries h id
  unfold contracts
  rw [List.pairwise_map]
  generalize (r.chain id).byName = byName at hkeys hnames
  have hsorted := @List.pairwise_mergeSort _ (fun a b : String × Contract => decide (a.1 ≤ b.1))
    (fun a b c hab hbc => decide_eq_true (String.le_trans (of_decide_eq_true hab) (of_decide_eq_true hbc)))
    (fun a b => by simpa using String.le_total a.1 b.1) byName
  have hperm := List.mergeSort_perm byName fun a b => decide (a.1 ≤ b.1)
  have happart : (byName.mergeSort fun a b => decide (a.1 ≤ b.1)).Pairwise fun a b => a.1 ≠ b.1 :=
    List.pairwise_map.mp ((hperm.map Prod.fst).nodup_iff.mpr hkeys)
  refine (hsorted.and happart).imp_of_mem fun {a b} ha hb hab => ?_
  rw [hnames a (hperm.mem_iff.mp ha), hnames b (hperm.mem_iff.mp hb)]
  exact String.not_le.mp fun hba => hab.2 (String.le_antisymm (of_decide_eq_true hab.1) hba)

/-! ## What a file describes -/

/-- The functions that an entry of a file gives, or else those of the well-known contract of its name. -/
def describedAbi? (name : String) : Option Value → Option (List Value)
  | none => some (knownAbi name)
  | some .null => some (knownAbi name)
  | some (.list abi) => some abi
  | some _ => none

/-- The contract that an entry of a file describes, with its address in normal form. -/
def described? (name : String) : Value → Option Contract
  | .dict fields => do
    let address ← (Table.find? "address" fields).bind fun v => addressOfText? v.display
    let abi ← describedAbi? name (Table.find? "abi" fields)
    return ⟨name, address, abi⟩
  | _ => none

theorem abiOf_of_describedAbi? {name : String} {v : Option Value} {abi : List Value}
    (h : describedAbi? name v = some abi) : abiOf name v = .ok abi := by
  unfold describedAbi? at h
  split at h <;> cases h <;> rfl

/-- The contracts that an object of a file describes. -/
def describedAll (specs : List (String × Value)) : List Contract :=
  specs.filterMap fun spec => described? spec.1 spec.2

/-- The contracts that a file describes for a chain, in order, under all keys that spell it. -/
def fileEntries (id : Int) (chains : List (String × Value)) : List Contract :=
  (chains.filter fun chain => readInteger? chain.1.toList = some id).flatMap fun chain =>
    match chain.2 with
    | .dict specs => describedAll specs
    | _ => []

/-- The key of a chain is an integer, and each of its entries describes a contract. -/
structure IsDescribed (chain : String × Value) : Prop where
  key : ∃ id, readInteger? chain.1.toList = some id
  specs : ∃ specs, chain.2 = .dict specs ∧ ∀ spec ∈ specs, ∃ c, described? spec.1 spec.2 = some c

theorem fileEntries_cons {key : String} {n : Int} (hkey : readInteger? key.toList = some n)
    (specs : List (String × Value)) (chains : List (String × Value)) (id : Int) :
    fileEntries id ((key, .dict specs) :: chains) =
      if n = id then describedAll specs ++ fileEntries id chains else fileEntries id chains := by
  unfold fileEntries
  by_cases hid : n = id
  · simp [hkey, hid]
  · simp [hkey, hid]

/-- An entry that describes a contract is read as it, up to the form of its address. -/
theorem exists_contractOf {name : String} {spec : Value} (h : described? name spec = some c) :
    c.name = name ∧ ∃ c₀, contractOf name spec = .ok c₀ ∧ c₀.normalized = .ok c := by
  cases spec with
  | dict fields =>
    obtain ⟨address, haddress, h⟩ := Option.bind_eq_some_iff.mp h
    obtain ⟨abi, habi, h⟩ := Option.bind_eq_some_iff.mp h
    cases h
    obtain ⟨v, hv, ha⟩ := Option.bind_eq_some_iff.mp haddress
    refine ⟨rfl, ⟨name, v.display, abi⟩, ?_, ?_⟩
    · simp [contractOf, hasKey, hv, abiOf_of_describedAbi? habi]
    · simp [Contract.normalized, ha]
  | _ => cases h

/-! ## What a table shows -/

/-- The contract under a name, with its address in normal form. -/
def shown? (table : List (String × Contract)) (name : String) : Option Contract :=
  (Table.find? name table).bind fun c => c.normalized.toOption

/-- What a table shows of a chain. -/
def shownOn? (overlay : Overlay) (id : Int) : String → Option Contract :=
  shown? ((Table.find? id overlay).getD [])

/-- The contracts of a table have addresses. -/
def AreAddressed (table : List (String × Contract)) : Prop :=
  ∀ entry ∈ table, ∃ c, entry.2.normalized = .ok c

theorem shown?_insert {name : String} {c₀ : Contract} (h : c₀.normalized = .ok c) (name' : String) :
    shown? (Table.insert name c₀ table) name' = if name = name' then some c else shown? table name' := by
  unfold shown?
  rw [Table.find?_insert]
  by_cases hname : name = name'
  · simp [hname, h, Except.toOption]
  · simp [hname]

theorem AreAddressed.insert {name : String} {c₀ : Contract} (htable : AreAddressed table)
    (h : c₀.normalized = .ok c) : AreAddressed (Table.insert name c₀ table) := by
  intro entry hentry
  rcases Table.mem_insert hentry with rfl | hentry
  · exact ⟨c, h⟩
  · exact htable entry hentry

/-- **The entries of a chain are laid over it one after the other.** -/
theorem exists_overlayContracts {specs : List (String × Value)} (htable : AreAddressed table)
    (hspecs : ∀ spec ∈ specs, ∃ c, described? spec.1 spec.2 = some c) :
    ∃ table', overlayContracts table specs = .ok table' ∧ AreAddressed table' ∧
      ∀ name, shown? table' name = (lastWith? (·.name) name (describedAll specs)).or (shown? table name) := by
  induction specs generalizing table with
  | nil => exact ⟨table, rfl, htable, fun _ => rfl⟩
  | cons spec specs ih =>
    obtain ⟨⟨c, hc⟩, hspecs⟩ := List.forall_mem_cons.mp hspecs
    obtain ⟨hname, c₀, hread, hnormal⟩ := exists_contractOf hc
    obtain ⟨table', hover, haddressed, hshown⟩ := ih (htable.insert hnormal) hspecs
    refine ⟨table', ?_, haddressed, fun name => ?_⟩
    · rw [overlayContracts, hread, ok_bind, hover]
    · have hcons : describedAll (spec :: specs) = c :: describedAll specs := List.filterMap_cons_some hc
      rw [hshown, shown?_insert hnormal, hcons, lastWith?_cons, Option.or_assoc, hname]
      split <;> simp

/-- **The chains of a file are laid over the table one after the other.** -/
theorem exists_overlay {overlay₀ : Overlay} {chains : List (String × Value)}
    (htable : ∀ entry ∈ overlay₀, AreAddressed entry.2) (hchains : ∀ chain ∈ chains, IsDescribed chain) :
    ∃ overlay', overlay overlay₀ chains = .ok overlay' ∧ (∀ entry ∈ overlay', AreAddressed entry.2) ∧
      ∀ id name, shownOn? overlay' id name =
        (lastWith? (·.name) name (fileEntries id chains)).or (shownOn? overlay₀ id name) := by
  induction chains generalizing overlay₀ with
  | nil => exact ⟨overlay₀, rfl, htable, fun _ _ => rfl⟩
  | cons chain chains ih =>
    obtain ⟨key, contracts⟩ := chain
    obtain ⟨⟨⟨n, hkey⟩, specs, hcontracts, hspecs⟩, hrest⟩ := List.forall_mem_cons.mp hchains
    obtain rfl : contracts = .dict specs := hcontracts
    have hbefore : AreAddressed ((Table.find? n overlay₀).getD []) := by
      cases hfind : Table.find? n overlay₀ with
      | none => exact List.forall_mem_nil _
      | some before => exact htable _ (Table.mem_of_find? hfind)
    obtain ⟨laid, hlaid, haddressed, hshown⟩ := exists_overlayContracts hbefore hspecs
    have hnext : ∀ entry ∈ Table.insert n laid overlay₀, AreAddressed entry.2 := by
      intro entry hentry
      rcases Table.mem_insert hentry with rfl | hentry
      · exact haddressed
      · exact htable entry hentry
    obtain ⟨overlay', hover, haddressed', hshown'⟩ := ih hnext hrest
    refine ⟨overlay', ?_, haddressed', fun id name => ?_⟩
    · have hid : (Value.text key).toInteger = .ok n := by
        rw [Value.toInteger, Value.textInteger, hkey]
      rw [overlay, hid, ok_bind]
      simp only [hlaid, ok_bind, hover]
    · rw [hshown', fileEntries_cons hkey]
      have hinsert : shownOn? (Table.insert n laid overlay₀) id name =
          if n = id then shown? laid name else shownOn? overlay₀ id name := by
        unfold shownOn?
        rw [Table.find?_insert]
        split <;> rfl
      rw [hinsert]
      split
      · next hid =>
        subst hid
        rw [lastWith?_append, Option.or_assoc, hshown]
        rfl
      · rfl

/-! ## The registry of a table -/

theorem exists_addAll {chain : Chain} {cs : List Contract} (h : ∀ c ∈ cs, ∃ c', c.normalized = .ok c') :
    ∃ chain', chain.addAll cs = .ok chain' := by
  induction cs generalizing chain with
  | nil => exact ⟨chain, rfl⟩
  | cons c cs ih =>
    obtain ⟨⟨c', hc⟩, hcs⟩ := List.forall_mem_cons.mp h
    obtain ⟨chain', hadd⟩ := ih hcs
    exact ⟨chain', bind_eq_ok.mpr ⟨c', hc, hadd⟩⟩

theorem exists_ofEntries {entries : List (Int × List Contract)}
    (h : ∀ entry ∈ entries, ∀ c ∈ entry.2, ∃ c', c.normalized = .ok c') :
    ∃ r, ofEntries entries = .ok r := by
  unfold ofEntries
  generalize ({} : Registry) = r₀
  induction entries generalizing r₀ with
  | nil => exact ⟨r₀, rfl⟩
  | cons entry entries ih =>
    obtain ⟨hentry, hentries⟩ := List.forall_mem_cons.mp h
    obtain ⟨chain, hchain⟩ := exists_addAll hentry
    obtain ⟨r, hr⟩ := ih hentries ⟨Table.insert entry.1 chain r₀.chains⟩
    exact ⟨r, bind_eq_ok.mpr ⟨_, bind_eq_ok.mpr ⟨chain, hchain, rfl⟩, hr⟩⟩

theorem shown?_cons (name : String) (c : Contract) (table : List (String × Contract)) (name' : String) :
    shown? ((name, c) :: table) name' =
      if name = name' then c.normalized.toOption else shown? table name' := by
  unfold shown?
  rw [Table.find?]
  split <;> rfl

/-- In a table by name the contract under a name is the last one with it. -/
theorem lastWith?_normalizedAll (h : IsByName table) (name : String) :
    lastWith? (·.name) name (Contract.normalizedAll (table.map (·.2))) = shown? table name := by
  induction table with
  | nil => rfl
  | cons entry table ih =>
    obtain ⟨k, c⟩ := entry
    obtain ⟨hname, hnames⟩ := List.forall_mem_cons.mp h.2
    obtain rfl : c.name = k := hname
    obtain ⟨hfresh, hkeys⟩ := List.nodup_cons.mp h.1
    have hrest := ih ⟨hkeys, hnames⟩
    -- a name at the head is not below it
    have hbelow : c.name = name → shown? table name = none := by
      rintro rfl
      unfold shown?
      rw [Table.find?_eq_none.mpr hfresh]
      rfl
    rw [shown?_cons]
    cases hc : c.normalized with
    | error fault =>
      have hcons : Contract.normalizedAll ((c.name, c) :: table |>.map (·.2)) =
          Contract.normalizedAll (table.map (·.2)) := by
        simp [Contract.normalizedAll, hc, Except.toOption]
      rw [hcons, hrest]
      split
      · next hsame => exact hbelow hsame
      · rfl
    | ok c' =>
      have hcons : Contract.normalizedAll ((c.name, c) :: table |>.map (·.2)) =
          c' :: Contract.normalizedAll (table.map (·.2)) := by
        simp [Contract.normalizedAll, hc, Except.toOption]
      rw [hcons, lastWith?_cons, hrest, (Contract.normalized_eq_ok hc).2.1]
      split
      · next hsame => rw [hbelow hsame]; rfl
      · exact Option.or_none

/-- If chains are apart, the entries of a chain are those under its number. -/
theorem entriesOn_of_nodup {overlay : Overlay} (h : (overlay.map Prod.fst).Nodup) (id : Int) :
    entriesOn id (overlay.map fun entry => (entry.1, entry.2.map (·.2))) =
      Contract.normalizedAll (((Table.find? id overlay).getD []).map (·.2)) := by
  induction overlay with
  | nil => rfl
  | cons entry overlay ih =>
    obtain ⟨n, contracts⟩ := entry
    obtain ⟨hfresh, hkeys⟩ := List.nodup_cons.mp h
    have hrest := ih hkeys
    unfold Table.find?
    split
    · next hid =>
      obtain rfl : n = id := hid
      -- no other entries are under the number of this chain
      rw [Table.find?_eq_none.mpr hfresh] at hrest
      have hcons : entriesOn n (((n, contracts) :: overlay).map fun entry => (entry.1, entry.2.map (·.2))) =
          Contract.normalizedAll (contracts.map (·.2)) ++
            entriesOn n (overlay.map fun entry => (entry.1, entry.2.map (·.2))) := by
        simp [entriesOn]
      rw [hcons, hrest]
      exact List.append_nil _
    · next hid =>
      rw [← hrest]
      simp [entriesOn, hid]

/-- **The registry of a table finds what the table shows.** -/
theorem exists_ofOverlay {overlay : Overlay} (htable : IsOverlay overlay)
    (haddressed : ∀ entry ∈ overlay, AreAddressed entry.2) :
    ∃ r, ofOverlay overlay = .ok r ∧ ∀ id name, r.lookup? id name = shownOn? overlay id name := by
  obtain ⟨r, hr⟩ : ∃ r, ofOverlay overlay = .ok r := by
    refine exists_ofEntries (List.forall_mem_map.mpr fun entry hentry => ?_)
    exact List.forall_mem_map.mpr fun c hc => haddressed entry hentry c hc
  refine ⟨r, hr, fun id name => ?_⟩
  have hbefore : IsByName ((Table.find? id overlay).getD []) := by
    cases hfind : Table.find? id overlay with
    | none => exact IsByName.nil
    | some before => exact htable.2 _ (Table.mem_of_find? hfind)
  rw [lookup?_of_ofEntries hr, entriesOn_of_nodup htable.1, lastWith?_normalizedAll hbefore]
  rfl

theorem areAddressed_builtInOverlay : ∀ entry ∈ builtInOverlay, AreAddressed entry.2 := by
  refine List.forall_mem_singleton.mpr (List.forall_mem_map.mpr fun c hc => ?_)
  exact ⟨c, Contract.normalized_of_isNormalAddress (isNormalAddress_builtIn c hc)⟩

theorem lookup?_builtInRegistry (id : Int) (name : String) :
    builtInRegistry.lookup? id name = shownOn? builtInOverlay id name := by
  obtain ⟨r, hr, hfound⟩ := exists_ofOverlay isOverlay_builtInOverlay areAddressed_builtInOverlay
  have hbuiltIn : ofOverlay builtInOverlay = .ok builtInRegistry := load_none
  obtain rfl := Except.ok.inj (hbuiltIn.symm.trans hr)
  exact hfound id name

/-- **A contracts file is laid over the built-in table.** If its keys are integers and its entries describe
    contracts, it is loaded. Under each name of a chain the registry has the last contract that the file
    describes for it under any key that spells the chain, or else the built-in one, if there is one. What is
    listed of a chain are these contracts, each once, in the order of their names. -/
theorem load_overlays {text : String} {chains : List (String × Value)}
    (hread : Json.read text = .ok (.dict chains)) (hchains : ∀ chain ∈ chains, IsDescribed chain) :
    ∃ r, load (some text) = .ok r ∧ ∀ id,
      (∀ name, r.lookup? id name =
        (lastWith? (·.name) name (fileEntries id chains)).or (builtInRegistry.lookup? id name)) ∧
      (∀ name c, r.lookup? id name = some c ↔ c ∈ r.contracts id ∧ c.name = name) ∧
      (r.contracts id).Pairwise fun c d => c.name < d.name := by
  obtain ⟨overlay', hover, haddressed, hshown⟩ := exists_overlay areAddressed_builtInOverlay hchains
  have htable : IsOverlay overlay' := isOverlay_overlay isOverlay_builtInOverlay hover
  obtain ⟨r, hr, hfound⟩ := exists_ofOverlay htable haddressed
  have hload : load (some text) = .ok r := by
    show (Json.read text >>= ofDocument) = _
    rw [hread, ok_bind, ofDocument, hover, ok_bind, hr]
  have hlookup : ∀ id name, r.lookup? id name =
      (lastWith? (·.name) name (fileEntries id chains)).or (builtInRegistry.lookup? id name) := by
    intro id name
    rw [hfound, hshown, lookup?_builtInRegistry]
  exact ⟨r, hload, fun id => ⟨hlookup id, fun _ _ => lookup?_eq_some_iff hr, pairwise_contracts hr id⟩⟩

/-- A file that spells a chain in two ways and gives the payer under both. -/
def twoSpellings : List (String × Value) :=
  [("1", .dict [("payer", .dict [("address", .text "0x1111111111111111111111111111111111111111")]),
      ("vault", .dict [("address", .text "0x2222222222222222222222222222222222222222"),
        ("abi", .list [.text "open()"])])]),
    (" +01", .dict [("payer", .dict [("address", .text "3333333333333333333333333333333333333333"),
      ("abi", .null)])])]

/-- The payer is the one under the second spelling, the vault is new, and the token stays. -/
theorem load_overlays_payer :
    ∃ text r, Json.read text = .ok (.dict twoSpellings) ∧ load (some text) = .ok r ∧
      r.lookup? 1 "payer" =
        some ⟨"payer", "0x3333333333333333333333333333333333333333", knownAbi "payer"⟩ ∧
      r.lookup? 1 "vault" =
        some ⟨"vault", "0x2222222222222222222222222222222222222222", [.text "open()"]⟩ ∧
      r.lookup? 1 "token" = builtInRegistry.lookup? 1 "token" := by
  have hd : (Value.dict twoSpellings).IsDocument :=
    ⟨by decide, ⟨by decide, ⟨by decide, trivial, trivial⟩,
      ⟨by decide, trivial, ⟨trivial, trivial⟩, trivial⟩, trivial⟩,
      ⟨by decide, ⟨by decide, trivial, trivial, trivial⟩, trivial⟩, trivial⟩
  obtain ⟨text, htext⟩ := Json.exists_document_iff.mpr hd.isPrintable
  have hread := (Json.read_document hd htext).1
  have hdescribed : ∀ chain ∈ twoSpellings, IsDescribed chain := by
    have hfirst : IsDescribed twoSpellings[0] :=
      ⟨⟨1, rfl⟩, _, rfl, List.forall_mem_cons.mpr ⟨⟨_, rfl⟩, List.forall_mem_singleton.mpr ⟨_, rfl⟩⟩⟩
    have hsecond : IsDescribed twoSpellings[1] :=
      ⟨⟨1, rfl⟩, _, rfl, List.forall_mem_singleton.mpr ⟨_, rfl⟩⟩
    exact List.forall_mem_cons.mpr ⟨hfirst, List.forall_mem_singleton.mpr hsecond⟩
  obtain ⟨r, hload, hr⟩ := load_overlays hread hdescribed
  have hlookup := (hr 1).1
  exact ⟨text, r, hread, hload, hlookup "payer", hlookup "vault", hlookup "token"⟩

end Proposals.Registry
