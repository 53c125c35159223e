import Proposals.Registry.File
import Proposals.Proofs.Address
import Proposals.Proofs.Outcome

/-!
# `Proofs.Registry` — registries that keep the well-known functions

A registry may move the well-known contracts to other addresses, know further chains and further
contracts; what readable transactions rely on is only that the functions of well-known contracts keep
their argument types and that no name is registered twice on a chain (`Registry.AreConforming`). Then
what is found by name and what is found by address agree (`Chain.IsSound`). That they agree is preserved
by each contract that is added with a new name (`Chain.IsIndexed`), whatever its functions. The entries
that a contracts file leads to have unique names (`Registry.areUnique_of_load`), and the built-in table
keeps its own types.
-/

namespace Proposals

open Proposals.Abi Proposals.Outcome

namespace Table

variable {κ α : Type} [DecidableEq κ]

theorem find?_eq_none {key : κ} {t : List (κ × α)} :
    find? key t = none ↔ key ∉ t.map Prod.fst := by
  induction t with
  | nil => simp [find?]
  | cons entry t ih =>
    obtain ⟨k, v⟩ := entry
    by_cases h : k = key
    · simp [find?, h]
    · simp [find?, h, ih, Ne.symm h]

theorem mem_of_find? {key : κ} {v : α} {t : List (κ × α)} (h : find? key t = some v) :
    (key, v) ∈ t := by
  induction t with
  | nil => exact absurd h (by simp [find?])
  | cons entry t ih =>
    obtain ⟨k, w⟩ := entry
    by_cases hk : k = key
    · subst hk
      rw [find?, if_pos rfl, Option.some.injEq] at h
      rw [h]; simp
    · rw [find?, if_neg hk] at h
      exact List.mem_cons_of_mem _ (ih h)

theorem mem_insert {key : κ} {v : α} {t : List (κ × α)} {entry : κ × α}
    (h : entry ∈ insert key v t) : entry = (key, v) ∨ entry ∈ t := by
  induction t with
  | nil => exact .inl (List.mem_singleton.mp h)
  | cons first t ih =>
    obtain ⟨k, w⟩ := first
    by_cases hk : k = key
    · subst hk
      rw [insert, if_pos rfl] at h
      rcases List.mem_cons.mp h with h | h
      · exact .inl h
      · exact .inr (List.mem_cons_of_mem _ h)
    · rw [insert, if_neg hk] at h
      rcases List.mem_cons.mp h with rfl | h
      · exact .inr List.mem_cons_self
      · exact (ih h).imp_right (List.mem_cons_of_mem _)

/-- Setting a key keeps the keys apart. -/
theorem nodup_insert {key : κ} {v : α} {t : List (κ × α)} (h : (t.map Prod.fst).Nodup) :
    ((insert key v t).map Prod.fst).Nodup := by
  induction t with
  | nil => simp [insert]
  | cons entry t ih =>
    obtain ⟨k, w⟩ := entry
    rw [List.map_cons, List.nodup_cons] at h
    by_cases hk : k = key
    · subst hk
      rw [insert, if_pos rfl, List.map_cons, List.nodup_cons]
      exact h
    · rw [insert, if_neg hk, List.map_cons, List.nodup_cons]
      refine ⟨fun hmem => ?_, ih h.2⟩
      obtain ⟨entry, hentry, hkey⟩ := List.mem_map.mp hmem
      rcases mem_insert hentry with rfl | hentry
      · exact hk hkey.symm
      · exact h.1 (List.mem_map.mpr ⟨entry, hentry, hkey⟩)

end Table

/-! ## Contracts -/

namespace Contract

/-- The signature of a function has its name and stands among those of the contract. -/
theorem signatureAmong_sound {contract function : String} {abi : List Value} {s : Signature}
    (h : signatureAmong contract (.text function) abi = .ok s) :
    s.name = function ∧ ∃ entry ∈ abi, signatureOf entry = .ok s := by
  induction abi with
  | nil => exact absurd h (by simp [signatureAmong])
  | cons entry abi ih =>
    unfold signatureAmong at h
    split at h
    · exact absurd h (by simp)
    · exact absurd h (by simp)
    · next s' hs' =>
      split at h
      · next hname =>
        cases h
        exact ⟨(beq_iff_eq.mp hname).symm, entry, by simp, hs'⟩
      · obtain ⟨hname, entry', hmem, hs⟩ := ih h
        exact ⟨hname, entry', by simp [hmem], hs⟩

/-- The functions that the well-known contract of this name has keep their argument types. -/
def KeepsKnownTypes (c : Contract) : Prop :=
  ∀ function s known, c.signatureFor (.text function) = .ok s →
    signatureAmong c.name (.text function) (Registry.knownAbi c.name) = .ok known →
      s.types = known.types

theorem normalized_eq_ok {c c' : Contract} (h : c.normalized = .ok c') :
    IsNormalAddress c'.address ∧ c'.name = c.name ∧ c'.abi = c.abi := by
  unfold normalized at h
  split at h
  · next a ha =>
    cases h
    exact ⟨isNormalAddress_of_addressOfText? ha, rfl, rfl⟩
  · exact absurd h (by simp)

theorem normalized_of_isNormalAddress {c : Contract} (h : IsNormalAddress c.address) :
    c.normalized = .ok c := by
  have ha : addressOfText? c.address = some c.address := h
  unfold normalized
  rw [ha]

theorem KeepsKnownTypes.normalized {c c' : Contract} (hc : c.KeepsKnownTypes)
    (h : c.normalized = .ok c') : c'.KeepsKnownTypes := by
  obtain ⟨-, hname, habi⟩ := normalized_eq_ok h
  unfold KeepsKnownTypes signatureFor at hc ⊢
  rw [hname, habi]
  exact hc

end Contract

/-! ## One chain -/

namespace Chain

/-- Names lead to contracts of that name with an address in normal form, at which a contract is found;
    addresses lead to contracts at that address, which are also found by their names. -/
structure IsIndexed (chain : Chain) : Prop where
  named : ∀ name c, Table.find? name chain.byName = some c →
    c.name = name ∧ IsNormalAddress c.address ∧ ∃ d, Table.find? c.address chain.byAddress = some d
  placed : ∀ a c, Table.find? a chain.byAddress = some c →
    c.address = a ∧ Table.find? c.name chain.byName = some c

theorem IsIndexed.empty : IsIndexed {} where
  named := fun _ _ h => absurd h (by simp [Table.find?])
  placed := fun _ _ h => absurd h (by simp [Table.find?])

/-- A contract with a new name may be added. -/
theorem IsIndexed.add {chain : Chain} (h : chain.IsIndexed) {c : Contract}
    (hfresh : Table.find? c.name chain.byName = none) (haddress : IsNormalAddress c.address) :
    (chain.add c).IsIndexed where
  named := fun name d hd => by
    have hfind : Table.find? name (Table.insert c.name c chain.byName) = some d := hd
    show d.name = name ∧ IsNormalAddress d.address ∧
      ∃ e, Table.find? d.address (Table.insert c.address c chain.byAddress) = some e
    rw [Table.find?_insert] at hfind ⊢
    split at hfind
    · next hname =>
      cases hfind
      exact ⟨hname, haddress, c, if_pos rfl⟩
    · obtain ⟨hname, hnormal, e, he⟩ := h.named name d hfind
      refine ⟨hname, hnormal, ?_⟩
      split
      · exact ⟨c, rfl⟩
      · exact ⟨e, he⟩
  placed := fun a d hd => by
    have hfind : Table.find? a (Table.insert c.address c chain.byAddress) = some d := hd
    show d.address = a ∧ Table.find? d.name (Table.insert c.name c chain.byName) = some d
    rw [Table.find?_insert] at hfind ⊢
    split at hfind
    · next ha =>
      cases hfind
      exact ⟨ha, if_pos rfl⟩
    · obtain ⟨hplace, hname⟩ := h.placed a d hfind
      refine ⟨hplace, ?_⟩
      -- the name of an earlier contract is not the new one
      rw [if_neg]
      · exact hname
      · intro hsame
        rw [hsame, hname] at hfresh
        exact absurd hfresh (by simp)

/-- **Contracts with new and different names may be added** one after the other. -/
theorem IsIndexed.addAll {chain chain' : Chain} {cs : List Contract} (h : chain.IsIndexed)
    (hfresh : ∀ c ∈ cs, Table.find? c.name chain.byName = none) (hnames : (cs.map (·.name)).Nodup)
    (hadd : chain.addAll cs = .ok chain') : chain'.IsIndexed := by
  induction cs generalizing chain with
  | nil => cases hadd; exact h
  | cons c cs ih =>
    obtain ⟨c', hc', hadd⟩ := bind_eq_ok.mp hadd
    obtain ⟨haddress, hname, -⟩ := Contract.normalized_eq_ok hc'
    rw [List.map_cons, List.nodup_cons] at hnames
    have hindexed : (chain.add c').IsIndexed := h.add (by rw [hname]; exact hfresh c (by simp)) haddress
    refine ih hindexed (fun d hd => ?_) hnames.2 hadd
    show Table.find? d.name (Table.insert c'.name c' chain.byName) = none
    rw [Table.find?_insert, if_neg]
    · exact hfresh d (by simp [hd])
    · rw [hname]
      intro hsame
      exact hnames.1 (List.mem_map.mpr ⟨d, hd, hsame.symm⟩)

/-- What is in a chain after adding was there before, or is one of those added. -/
theorem mem_addAll {chain chain' : Chain} {cs : List Contract} (hadd : chain.addAll cs = .ok chain')
    {entry : String × Contract} (h : entry ∈ chain'.byName) :
    entry ∈ chain.byName ∨ ∃ c ∈ cs, c.normalized = .ok entry.2 := by
  induction cs generalizing chain with
  | nil => cases hadd; exact .inl h
  | cons c cs ih =>
    obtain ⟨c', hc', hadd⟩ := bind_eq_ok.mp hadd
    rcases ih hadd with hmem | ⟨d, hd, hnormal⟩
    · rcases Table.mem_insert hmem with rfl | hmem
      · exact .inr ⟨c, List.mem_cons_self, hc'⟩
      · exact .inl hmem
    · exact .inr ⟨d, List.mem_cons_of_mem _ hd, hnormal⟩

/-- Contracts whose addresses are in normal form are added as they are. -/
theorem addAll_eq_ok {chain : Chain} {cs : List Contract} (h : ∀ c ∈ cs, IsNormalAddress c.address) :
    chain.addAll cs = .ok (cs.foldl add chain) := by
  induction cs generalizing chain with
  | nil => rfl
  | cons c cs ih =>
    obtain ⟨hc, hcs⟩ := List.forall_mem_cons.mp h
    rw [addAll, Contract.normalized_of_isNormalAddress hc, ok_bind, ih hcs, List.foldl_cons]

/-- Names lead to contracts of that name, addresses in normal form to contracts that are there, and
    the latter are also found by their names. -/
structure IsSound (chain : Chain) : Prop where
  named : ∀ name c, Table.find? name chain.byName = some c →
    c.name = name ∧ IsNormalAddress c.address ∧ c.KeepsKnownTypes
  placed : ∀ a c, Table.find? a chain.byAddress = some c →
    c.address = a ∧ Table.find? c.name chain.byName = some c

theorem IsIndexed.isSound {chain : Chain} (h : chain.IsIndexed)
    (htypes : ∀ entry ∈ chain.byName, entry.2.KeepsKnownTypes) : chain.IsSound where
  named := fun name c hc =>
    have ⟨hname, haddress, _⟩ := h.named name c hc
    ⟨hname, haddress, htypes _ (Table.mem_of_find? hc)⟩
  placed := h.placed

end Chain

/-! ## All chains -/

namespace Registry

/-- No chain has two lists of entries, and no list has two contracts of one name. -/
structure AreUnique (entries : List (Int × List Contract)) : Prop where
  chains : (entries.map Prod.fst).Nodup
  names : ∀ entry ∈ entries, (entry.2.map (·.name)).Nodup

/-- Names are unique, and well-known contracts keep the argument types of their functions. -/
structure AreConforming (entries : List (Int × List Contract)) : Prop extends AreUnique entries where
  types : ∀ entry ∈ entries, ∀ c ∈ entry.2, c.KeepsKnownTypes

/-- A chain stays as it was, or is made of one list of the entries. -/
theorem chain_of_addChains {r r' : Registry} {entries : List (Int × List Contract)}
    (hchains : (entries.map Prod.fst).Nodup)
    (hfresh : ∀ entry ∈ entries, Table.find? entry.1 r.chains = none) (h : r.addChains entries = .ok r')
    (id : Int) : r'.chain id = r.chain id ∨
      ∃ entry ∈ entries, ({} : Chain).addAll entry.2 = .ok (r'.chain id) := by
  induction entries generalizing r with
  | nil => cases h; exact .inl rfl
  | cons entry entries ih =>
    obtain ⟨first, contracts⟩ := entry
    obtain ⟨r'', hr'', h⟩ := bind_eq_ok.mp h
    obtain ⟨chain, hchain, hr''⟩ := bind_eq_ok.mp hr''
    cases hr''
    rw [List.map_cons, List.nodup_cons] at hchains
    -- a chain that is named for the first time starts empty
    have hempty : r.chain first = {} := by
      unfold Registry.chain
      rw [hfresh (first, contracts) (by simp)]; rfl
    rw [hempty] at hchain
    have hnext : ∀ entry ∈ entries,
        Table.find? entry.1 (Table.insert first chain r.chains) = none := by
      intro e he
      rw [Table.find?_insert, if_neg]
      · exact hfresh e (by simp [he])
      · intro hsame
        exact hchains.1 (List.mem_map.mpr ⟨e, he, hsame.symm⟩)
    rcases ih hchains.2 hnext h with hsame | ⟨e, he, hadd⟩
    · have hinsert : r'.chain id = (Table.find? id (Table.insert first chain r.chains)).getD {} := hsame
      rw [Table.find?_insert] at hinsert
      split at hinsert
      · exact .inr ⟨(first, contracts), List.mem_cons_self, hchain.trans (congrArg _ hinsert.symm)⟩
      · exact .inl hinsert
    · exact .inr ⟨e, List.mem_cons_of_mem _ he, hadd⟩

/-- Every chain of a registry is made of one list of its entries, or of nothing. -/
theorem chain_of_ofEntries {r : Registry} {entries : List (Int × List Contract)}
    (hentries : AreUnique entries) (h : ofEntries entries = .ok r) (id : Int) :
    ∃ cs, ({} : Chain).addAll cs = .ok (r.chain id) ∧ (cs.map (·.name)).Nodup ∧
      ∀ c ∈ cs, ∃ entry ∈ entries, c ∈ entry.2 := by
  rcases chain_of_addChains hentries.chains (fun _ _ => rfl) h id with hempty | ⟨entry, hentry, hadd⟩
  · exact ⟨[], congrArg Except.ok hempty.symm, List.nodup_nil, fun c hc => absurd hc (by simp)⟩
  · exact ⟨entry.2, hadd, hentries.names entry hentry, fun c hc => ⟨entry, hentry, hc⟩⟩

/-- **In a registry of entries with unique names, what is found by name and by address agrees.** -/
theorem isIndexed_of_ofEntries {r : Registry} {entries : List (Int × List Contract)}
    (hentries : AreUnique entries) (h : ofEntries entries = .ok r) (id : Int) :
    (r.chain id).IsIndexed := by
  obtain ⟨cs, hadd, hnames, -⟩ := chain_of_ofEntries hentries h id
  exact Chain.IsIndexed.empty.addAll (fun _ _ => rfl) hnames hadd

/-- **In a registry of conforming entries, names and addresses agree** on every chain, and the functions
    of well-known contracts are the known ones. -/
theorem isSound_of_ofEntries {r : Registry} {entries : List (Int × List Contract)}
    (hentries : AreConforming entries) (h : ofEntries entries = .ok r) (id : Int) :
    (r.chain id).IsSound := by
  refine (isIndexed_of_ofEntries hentries.toAreUnique h id).isSound fun entry hentry => ?_
  obtain ⟨cs, hadd, -, hmem⟩ := chain_of_ofEntries hentries.toAreUnique h id
  rcases Chain.mem_addAll hadd hentry with hnone | ⟨c, hc, hnormal⟩
  · exact absurd hnone (by simp)
  · obtain ⟨list, hlist, hc⟩ := hmem c hc
    exact (hentries.types list hlist c hc).normalized hnormal

/-! ## Where registries come from -/

/-- The registry with contracts of one chain. -/
def onChain (id : Int) (cs : List Contract) : Registry := ⟨[(id, cs.foldl Chain.add {})]⟩

theorem ofEntries_eq_ok {id : Int} {cs : List Contract} (h : ∀ c ∈ cs, IsNormalAddress c.address) :
    ofEntries [(id, cs)] = .ok (onChain id cs) := by
  show (Chain.addAll {} cs >>= _) >>= _ = _
  rw [Chain.addAll_eq_ok h]
  rfl

theorem ofOverlay_eq_ok {id : Int} {cs : List Contract} (h : ∀ c ∈ cs, IsNormalAddress c.address) :
    ofOverlay [(id, cs.map fun c => (c.name, c))] = .ok (onChain id cs) := by
  have hcs : (cs.map fun c => (c.name, c)).map Prod.snd = cs := by
    rw [List.map_map]
    exact List.map_id cs
  show ofEntries [(id, (cs.map fun c => (c.name, c)).map Prod.snd)] = _
  rw [hcs]
  exact ofEntries_eq_ok h

/-- The registry of the built-in table: its addresses are in normal form already. -/
def builtInRegistry : Registry :=
  ⟨[(mainnet, ⟨builtInContracts.map fun c => (c.name, c),
    builtInContracts.map fun c => (c.address, c)⟩)]⟩

theorem isNormalAddress_builtIn : ∀ c ∈ builtInContracts, IsNormalAddress c.address := by
  refine List.forall_mem_map.mpr fun entry hentry => ?_
  simp only [builtInAddresses, List.mem_cons, List.not_mem_nil, or_false] at hentry
  rcases hentry with rfl | rfl | rfl | rfl | rfl | rfl | rfl <;> rfl

theorem builtIn_eq_ok : builtIn = .ok builtInRegistry :=
  (ofEntries_eq_ok isNormalAddress_builtIn).trans rfl

theorem load_none : load none = .ok builtInRegistry := builtIn_eq_ok

theorem areConforming_builtInEntries : AreConforming builtInEntries where
  chains := by decide
  names := by decide
  types := fun entry hentry c hc => by
    rw [List.mem_singleton.mp hentry] at hc
    obtain ⟨⟨name, address⟩, -, rfl⟩ := List.mem_map.mp hc
    intro function s known hs hknown
    rw [Except.ok.inj (hs.symm.trans hknown)]

/-- The keys of a table by name are the names of its contracts, each once. -/
def IsByName (table : List (String × Contract)) : Prop :=
  (table.map Prod.fst).Nodup ∧ ∀ entry ∈ table, entry.2.name = entry.1

theorem IsByName.names {table : List (String × Contract)} (h : IsByName table) :
    ((table.map (·.2)).map (·.name)).Nodup := by
  have hkeys : (table.map (·.2)).map (·.name) = table.map Prod.fst := by
    rw [List.map_map]
    exact List.map_congr_left fun entry hentry => h.2 entry hentry
  rw [hkeys]
  exact h.1

theorem IsByName.nil : IsByName [] := ⟨List.nodup_nil, fun _ hentry => absurd hentry List.not_mem_nil⟩

theorem IsByName.insert {table : List (String × Contract)} (h : IsByName table) (c : Contract) :
    IsByName (Table.insert c.name c table) := by
  refine ⟨Table.nodup_insert h.1, fun entry hentry => ?_⟩
  rcases Table.mem_insert hentry with rfl | hentry
  · rfl
  · exact h.2 entry hentry

theorem name_of_contractOf {name : String} {spec : Value} {c : Contract}
    (h : contractOf name spec = .ok c) : c.name = name := by
  unfold contractOf at h
  obtain ⟨found, -, h⟩ := bind_eq_ok.mp h
  simp only [throw_eq_error, error_bind] at h
  cases found with
  | false => exact absurd h (by simp)
  | true =>
    cases spec with
    | dict entries =>
      obtain ⟨abi, -, h⟩ := bind_eq_ok.mp h
      cases h; rfl
    | _ => exact absurd h (by simp)

theorem isByName_overlayContracts {table table' : List (String × Contract)}
    {specs : List (String × Value)} (h : IsByName table)
    (hover : overlayContracts table specs = .ok table') : IsByName table' := by
  induction specs generalizing table with
  | nil => cases hover; exact h
  | cons spec specs ih =>
    obtain ⟨name, spec⟩ := spec
    obtain ⟨c, hc, hover⟩ := bind_eq_ok.mp hover
    obtain rfl := name_of_contractOf hc
    exact ih (h.insert c) hover

/-- The chains of a table by name are apart, and each is by name. -/
def IsOverlay (table : Overlay) : Prop :=
  (table.map Prod.fst).Nodup ∧ ∀ entry ∈ table, IsByName entry.2

theorem isOverlay_builtInOverlay : IsOverlay builtInOverlay := by
  refine ⟨by decide, fun entry hentry => ?_⟩
  rw [List.mem_singleton.mp hentry]
  refine ⟨by decide, fun c hc => ?_⟩
  obtain ⟨d, -, rfl⟩ := List.mem_map.mp hc
  rfl

theorem isOverlay_overlay {table table' : Overlay} {entries : List (String × Value)}
    (h : IsOverlay table) (hover : overlay table entries = .ok table') : IsOverlay table' := by
  induction entries generalizing table with
  | nil => cases hover; exact h
  | cons entry entries ih =>
    obtain ⟨key, contracts⟩ := entry
    obtain ⟨id, -, hover⟩ := bind_eq_ok.mp hover
    split at hover
    · obtain ⟨chain, hchain, hover⟩ := bind_eq_ok.mp hover
      -- the chain is laid over what is there of it, which is nothing for a new chain
      have hbefore : IsByName ((Table.find? id table).getD []) := by
        cases hfind : Table.find? id table with
        | none => exact IsByName.nil
        | some before => exact h.2 _ (Table.mem_of_find? hfind)
      have hafter := isByName_overlayContracts hbefore hchain
      refine ih ⟨Table.nodup_insert h.1, fun entry hentry => ?_⟩ hover
      rcases Table.mem_insert hentry with rfl | hentry
      · exact hafter
      · exact h.2 entry hentry
    · exact absurd hover (by simp)

/-- **The registry of a contracts file is made of entries with unique names.** -/
theorem areUnique_of_load {file : Option String} {r : Registry} (h : load file = .ok r) :
    ∃ entries, AreUnique entries ∧ ofEntries entries = .ok r := by
  -- with and without a file the entries are those of a table by name
  have htable : ∀ {table : Overlay}, IsOverlay table → ofOverlay table = .ok r →
      ∃ entries, AreUnique entries ∧ ofEntries entries = .ok r := by
    intro table htable hr
    refine ⟨_, ⟨?_, fun entry hentry => ?_⟩, hr⟩
    · rw [List.map_map]
      exact htable.1
    · obtain ⟨chain, hchain, rfl⟩ := List.mem_map.mp hentry
      exact (htable.2 chain hchain).names
  cases file with
  | none => exact htable isOverlay_builtInOverlay h
  | some text =>
    obtain ⟨document, -, h⟩ := bind_eq_ok.mp h
    unfold ofDocument at h
    split at h
    · obtain ⟨table, hover, h⟩ := bind_eq_ok.mp h
      exact htable (isOverlay_overlay isOverlay_builtInOverlay hover) h
    · exact absurd h (by simp)

theorem isIndexed_of_load {file : Option String} {r : Registry} (h : load file = .ok r) (id : Int) :
    (r.chain id).IsIndexed := by
  obtain ⟨entries, hentries, hr⟩ := areUnique_of_load h
  exact isIndexed_of_ofEntries hentries hr id

end Registry

end Proposals
