import Proposals.Proofs.Registry

/-!
# `Proofs.Registry.Entries` — what a registry knows of a chain

A registry is built entry by entry, and an entry takes the place of earlier ones, in one index by its name
and in the other by its address. So the index by name keeps the last entry under each name, the index by
address the last entry at each address (`find?_byName_foldl_add`, `find?_byAddress_foldl_add`), and what
is known of a chain comes from the entries of that chain alone, wherever they stand among those of others
(`chain_of_entriesOn`). Lists of contracts with the same last entries make registries that find the same
(`agreeOn_of_holdSame`).
-/

namespace Proposals

open Proposals.Outcome

/-! ## The last entry -/

/-- The last contract whose name or address is the given one. -/
def lastWith? (key : Contract → String) (k : String) (cs : List Contract) : Option Contract :=
  cs.reverse.find? fun c => key c = k

/-- A contract takes the place of those before it that have its key, and no other. -/
theorem lastWith?_cons (key : Contract → String) (k : String) (c : Contract) (cs : List Contract) :
    lastWith? key k (c :: cs) = (lastWith? key k cs).or (if key c = k then some c else none) := by
  simp [lastWith?, List.find?_singleton]

/-- Contracts take the place of those of the lists before theirs. -/
theorem lastWith?_append (key : Contract → String) (k : String) (cs cs' : List Contract) :
    lastWith? key k (cs ++ cs') = (lastWith? key k cs').or (lastWith? key k cs) := by
  simp [lastWith?]

/-- The last contract with a key stands behind all others that have it. -/
theorem lastWith?_eq_some_iff {key : Contract → String} {k : String} {c : Contract} {cs : List Contract} :
    lastWith? key k cs = some c ↔
      key c = k ∧ ∃ before after, cs = before ++ c :: after ∧ ∀ d ∈ after, key d ≠ k := by
  unfold lastWith?
  rw [List.find?_eq_some_iff_append]
  simp only [decide_eq_true_eq, Bool.not_eq_eq_eq_not, Bool.not_true, decide_eq_false_iff_not]
  refine and_congr_right fun _ => ⟨?_, ?_⟩
  · rintro ⟨behind, front, hsplit, hbehind⟩
    refine ⟨front.reverse, behind.reverse, ?_, fun d hd => hbehind d (List.mem_reverse.mp hd)⟩
    rw [← List.reverse_reverse cs, hsplit]
    simp
  · rintro ⟨before, after, rfl, hafter⟩
    exact ⟨after.reverse, before.reverse, by simp, fun d hd => hafter d (List.mem_reverse.mp hd)⟩

theorem mem_of_lastWith? {key : Contract → String} {k : String} {c : Contract} {cs : List Contract}
    (h : lastWith? key k cs = some c) : c ∈ cs ∧ key c = k := by
  obtain ⟨hkey, before, after, rfl, -⟩ := lastWith?_eq_some_iff.mp h
  exact ⟨by simp, hkey⟩

/-- There is a last contract with the key of one that is there. -/
theorem exists_lastWith? (key : Contract → String) {c : Contract} {cs : List Contract} (hc : c ∈ cs) :
    ∃ d, lastWith? key (key c) cs = some d := by
  refine Option.isSome_iff_exists.mp (List.find?_isSome.mpr ⟨c, List.mem_reverse.mpr hc, ?_⟩)
  exact decide_eq_true rfl

/-- Setting contracts one after the other leaves the last one under each key. -/
theorem Table.find?_foldl_insert (key : Contract → String) (k : String) (cs : List Contract)
    (t : List (String × Contract)) :
    find? k (cs.foldl (fun t c => insert (key c) c t) t) = (lastWith? key k cs).or (find? k t) := by
  induction cs generalizing t with
  | nil => rfl
  | cons c cs ih =>
    rw [List.foldl_cons, ih, find?_insert, lastWith?_cons]
    by_cases hkey : key c = k
    · simp [hkey]
    · simp [hkey]

/-- Both lists have the same last contract under each name, and at each address. -/
structure HoldSame (cs cs' : List Contract) : Prop where
  named : ∀ name, lastWith? (·.name) name cs = lastWith? (·.name) name cs'
  placed : ∀ address, lastWith? (·.address) address cs = lastWith? (·.address) address cs'

theorem HoldSame.refl (cs : List Contract) : HoldSame cs cs where
  named _ := rfl
  placed _ := rfl

/-! ## One chain -/

/-- The contracts with their addresses in normal form; what has no address is left out. -/
def Contract.normalizedAll (cs : List Contract) : List Contract :=
  cs.filterMap fun c => c.normalized.toOption

namespace Chain

theorem byName_foldl_add (chain : Chain) (cs : List Contract) :
    (cs.foldl add chain).byName = cs.foldl (fun t c => Table.insert c.name c t) chain.byName := by
  induction cs generalizing chain with
  | nil => rfl
  | cons c cs ih => exact ih (chain.add c)

theorem byAddress_foldl_add (chain : Chain) (cs : List Contract) :
    (cs.foldl add chain).byAddress = cs.foldl (fun t c => Table.insert c.address c t) chain.byAddress := by
  induction cs generalizing chain with
  | nil => rfl
  | cons c cs ih => exact ih (chain.add c)

/-- **By name the last contract is found.** -/
theorem find?_byName_foldl_add (cs : List Contract) (name : String) :
    Table.find? name (cs.foldl add {}).byName = lastWith? (·.name) name cs := by
  rw [byName_foldl_add, Table.find?_foldl_insert]
  exact Option.or_none

/-- **By address the last contract is found.** -/
theorem find?_byAddress_foldl_add (cs : List Contract) (address : String) :
    Table.find? address (cs.foldl add {}).byAddress = lastWith? (·.address) address cs := by
  rw [byAddress_foldl_add, Table.find?_foldl_insert]
  exact Option.or_none

/-- Adding contracts normalizes them all and sets them one after the other. -/
theorem eq_of_addAll {chain chain' : Chain} {cs : List Contract} (h : chain.addAll cs = .ok chain') :
    chain' = (Contract.normalizedAll cs).foldl add chain := by
  induction cs generalizing chain with
  | nil =>
    cases h
    rfl
  | cons c cs ih =>
    obtain ⟨c', hc', h⟩ := bind_eq_ok.mp h
    have hcons : Contract.normalizedAll (c :: cs) = c' :: Contract.normalizedAll cs := by
      simp [Contract.normalizedAll, hc', Except.toOption]
    rw [hcons, List.foldl_cons]
    exact ih h

end Chain

/-! ## All chains -/

namespace Registry

/-- The contracts that a table has for a chain, in order, with their addresses in normal form. A chain may
    stand in the table more than once. -/
def entriesOn (id : Int) (table : List (Int × List Contract)) : List Contract :=
  (table.filter fun entry => entry.1 = id).flatMap fun entry => Contract.normalizedAll entry.2

theorem chain_of_addChain {r r' : Registry} {id : Int} {cs : List Contract}
    (h : r.addChain id cs = .ok r') (other : Int) :
    r'.chain other = if id = other then (Contract.normalizedAll cs).foldl Chain.add (r.chain id)
      else r.chain other := by
  obtain ⟨chain, hchain, h⟩ := bind_eq_ok.mp h
  cases h
  show (Table.find? other (Table.insert id chain r.chains)).getD {} = _
  rw [Table.find?_insert]
  by_cases hid : id = other
  · rw [if_pos hid, if_pos hid]
    exact Chain.eq_of_addAll hchain
  · rw [if_neg hid, if_neg hid]
    rfl

/-- Each chain takes its own entries, and only these. -/
theorem chain_of_addChains_eq {r r' : Registry} {table : List (Int × List Contract)}
    (h : r.addChains table = .ok r') (id : Int) :
    r'.chain id = (entriesOn id table).foldl Chain.add (r.chain id) := by
  induction table generalizing r with
  | nil =>
    cases h
    rfl
  | cons entry table ih =>
    obtain ⟨first, cs⟩ := entry
    obtain ⟨next, hnext, h⟩ := bind_eq_ok.mp h
    rw [ih h, chain_of_addChain hnext]
    by_cases hfirst : first = id
    · subst hfirst
      simp [entriesOn, List.foldl_append]
    · simp [entriesOn, hfirst]

/-- **What a registry knows of a chain comes from the entries of that chain.** -/
theorem chain_of_entriesOn {r : Registry} {table : List (Int × List Contract)}
    (h : ofEntries table = .ok r) (id : Int) :
    r.chain id = (entriesOn id table).foldl Chain.add {} :=
  chain_of_addChains_eq h id

/-- **By name the last entry of the chain is found.** -/
theorem lookup?_of_ofEntries {r : Registry} {table : List (Int × List Contract)}
    (h : ofEntries table = .ok r) (id : Int) (name : String) :
    r.lookup? id name = lastWith? (·.name) name (entriesOn id table) := by
  unfold lookup?
  rw [chain_of_entriesOn h, Chain.find?_byName_foldl_add]

/-- **At an address the last entry of the chain is found,** however the address is spelled. -/
theorem identify?_of_ofEntries {r : Registry} {table : List (Int × List Contract)}
    (h : ofEntries table = .ok r) (id : Int) (text : String) :
    r.identify? id (.text text) =
      (addressOfText? text).bind fun a => lastWith? (·.address) a (entriesOn id table) := by
  unfold identify?
  simp only [chain_of_entriesOn h, Chain.find?_byAddress_foldl_add]

/-- Only texts are looked for as addresses. -/
theorem text_of_identify? {r : Registry} {id : Int} {address : Value} {c : Contract}
    (h : r.identify? id address = some c) : ∃ text, address = .text text := by
  cases address with
  | text text => exact ⟨text, rfl⟩
  | _ => exact absurd h nofun

/-- The entries of a chain have their addresses in normal form. -/
theorem isNormalAddress_of_mem_entriesOn {id : Int} {table : List (Int × List Contract)} {c : Contract}
    (hc : c ∈ entriesOn id table) : IsNormalAddress c.address := by
  obtain ⟨entry, -, hc⟩ := List.mem_flatMap.mp hc
  obtain ⟨d, -, hd⟩ := List.mem_filterMap.mp hc
  cases hnormal : d.normalized with
  | error e => exact absurd (hnormal ▸ hd) nofun
  | ok c' =>
    rw [hnormal] at hd
    cases hd
    exact (Contract.normalized_eq_ok hnormal).1

/-- Both registries find the same contracts on the chain, by name and by address. -/
structure AgreeOn (id : Int) (r r' : Registry) : Prop where
  named : ∀ name, r.lookup? id name = r'.lookup? id name
  placed : ∀ address, r.identify? id address = r'.identify? id address

/-- **Registries with the same last entries on a chain agree on it.** -/
theorem agreeOn_of_holdSame {table table' : List (Int × List Contract)} {r r' : Registry}
    (hr : ofEntries table = .ok r) (hr' : ofEntries table' = .ok r') {id : Int}
    (hsame : HoldSame (entriesOn id table) (entriesOn id table')) : AgreeOn id r r' where
  named name := by
    rw [lookup?_of_ofEntries hr, lookup?_of_ofEntries hr']
    exact hsame.named name
  placed address := by
    cases address with
    | text text =>
      rw [identify?_of_ofEntries hr, identify?_of_ofEntries hr']
      simp only [hsame.placed]
    | _ => rfl

end Registry

end Proposals
