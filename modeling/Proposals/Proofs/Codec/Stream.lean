import Proposals.Proofs.Call
import Proposals.Proofs.Registry.File

/-!
# `Proofs.Codec.Stream` — streams in any registry

Writing a stream goes from its currency to the name of a contract, and by that name to an address.
Reading goes from the address to the contract that was registered there last. In every registry that is
loaded the two tables agree (`Chain.IsIndexed`), so reading ends where writing began, or at another
contract with the same address that was registered after it (`found_or_displaced`).

A stream of a token that is found at its address comes back as it was. If the token is displaced there, what
is written for the stream is not read as one, even though the registry has the token at this address
(`parse_unparse_stream`, `not_parse_unparse_stream`).
-/

namespace Proposals

open Proposals.Outcome

/-! ## What is found at the address of a contract -/

namespace Registry

variable {r : Registry} {chain : Int} {name : String} {c other : Contract}

/-- At the address of a contract another one is found, which has a name of its own. -/
structure IsDisplacedBy (r : Registry) (chain : Int) (c other : Contract) : Prop where
  found : r.identify? chain (.text c.address) = some other
  named : r.lookup? chain other.name = some other
  address : other.address = c.address
  name : other.name ≠ c.name

/-- **At the address of a named contract it is found, or one that displaces it.** -/
theorem found_or_displaced (h : (r.chain chain).IsIndexed) (hc : r.lookup? chain name = some c) :
    r.identify? chain (.text c.address) = some c ∨ ∃ other, r.IsDisplacedBy chain c other := by
  obtain ⟨hname, hnormal, other, hother⟩ := h.named name c hc
  obtain ⟨haddress, hnamed⟩ := h.placed _ other hother
  have hfound : r.identify? chain (.text c.address) = some other := by
    have hsame : addressOfText? c.address = some c.address := hnormal
    show (addressOfText? c.address).bind _ = _
    rw [hsame]
    exact hother
  by_cases hsame : other.name = c.name
  · -- names are unique, so the contract of this name is found
    obtain rfl : other = c := by
      rw [hsame, hname] at hnamed
      exact Option.some.inj (hnamed.symm.trans hc)
    exact .inl hfound
  · exact .inr ⟨other, hfound, hnamed, haddress, hsame⟩

end Registry

namespace Codec

open Proposals.Abi

variable {ctx : Context} {s : Stream} {usdc weth factory : Contract}

/-! ## The token of a stream -/

/-- The contract of the token of a stream is one of the two. -/
theorem exists_tokenContract (husdc : ctx.registry.lookup? ctx.chain "usdc-token" = some usdc)
    (hweth : ctx.registry.lookup? ctx.chain "weth-token" = some weth) (hs : s.token.IsStreamToken) :
    ∃ name token, streamToken s.token = .ok name ∧ ctx.registry.lookup? ctx.chain name = some token ∧
      (token = usdc ∨ token = weth) := by
  rcases hs with h | h <;> rw [h]
  · exact ⟨_, usdc, rfl, husdc, .inl rfl⟩
  · exact ⟨_, weth, rfl, hweth, .inr rfl⟩

/-- The name of the contract of a token gives the token back. -/
theorem currencyOfContract?_of_streamToken {token : Value} (htoken : token.IsStreamToken) {name : String}
    (hname : streamToken token = .ok name) :
    ∃ currency, token = .currency currency ∧ currencyOfContract? name = some currency := by
  rcases htoken with rfl | rfl <;> cases hname
  · exact ⟨.usdc, rfl, rfl⟩
  · exact ⟨.weth, rfl, rfl⟩

/-- A contract that displaces a token is no token, since tokens have different addresses. -/
theorem currencyOfContract?_of_displaced
    (husdc : ctx.registry.lookup? ctx.chain "usdc-token" = some usdc)
    (hweth : ctx.registry.lookup? ctx.chain "weth-token" = some weth) (hne : usdc.address ≠ weth.address)
    {token other : Contract} (htoken : token = usdc ∨ token = weth)
    (h : ctx.registry.IsDisplacedBy ctx.chain token other) : currencyOfContract? other.name = none := by
  -- a token that displaces another one has its address, and no contract displaces itself
  have hother : other ≠ usdc ∧ other ≠ weth := by
    have hself : other ≠ token := fun hsame => h.name (congrArg Contract.name hsame)
    rcases htoken with rfl | rfl
    · exact ⟨hself, fun hsame => hne (hsame ▸ h.address.symm)⟩
    · exact ⟨fun hsame => hne (hsame ▸ h.address), hself⟩
  unfold currencyOfContract?
  have husdc' : (other.name == "usdc-token") = false := beq_eq_false_iff_ne.mpr fun hname =>
    hother.1 (Option.some.inj ((hname ▸ h.named).symm.trans husdc))
  have hweth' : (other.name == "weth-token") = false := beq_eq_false_iff_ne.mpr fun hname =>
    hother.2 (Option.some.inj ((hname ▸ h.named).symm.trans hweth))
  rw [husdc', hweth']
  rfl

/-! ## Streams come back unless their token is displaced -/

/-- A stream is written where its contracts are, and read as one of the currency that is found at the
    address of its token. -/
theorem exists_unparseStream (hindexed : (ctx.registry.chain ctx.chain).IsIndexed)
    (hfactory : ctx.registry.lookup? ctx.chain "stream-factory" = some factory)
    (habi : factory.abi = Registry.knownAbi "stream-factory") (hs : s.IsReadable) {nonce : Nat}
    (hnonce : s.nonce = .int nonce) (hlimit : nonce ≤ 255) {name : String} {token : Contract}
    (hname : streamToken s.token = .ok name)
    (htoken : ctx.registry.lookup? ctx.chain name = some token) :
    ∃ raw, unparseAs .stream ctx (.stream s) = .ok raw ∧
      parseAs .stream ctx raw = .ok ((currencyAt? ctx (.text token.address)).map fun currency =>
        .stream ⟨s.receiver, .currency currency, s.amount, s.start, s.stop, s.contract, s.nonce⟩) := by
  obtain ⟨call, hcall⟩ : ∃ call, knownCall? .stream = some call := ⟨_, rfl⟩
  have hoffers : Offers factory call := offers_of_knownAbi hcall (by cases hcall; exact habi)
  obtain ⟨-, hplace, -⟩ := hindexed.named _ factory hfactory
  obtain ⟨-, haddress, -⟩ := hindexed.named _ token htoken
  obtain ⟨raw, hraw⟩ := exists_encodeStream hcall hoffers hs hnonce hlimit haddress
  refine ⟨raw, ?_, ?_⟩
  · show unparseStream ctx (.stream s) = .ok raw
    rw [unparseStream_eq hname (resolve_of_lookup? htoken) (resolve_of_lookup? hfactory)]
    exact hraw
  · obtain ⟨-, -, hparse⟩ := parseStream_of_encodeCall hfactory hplace hcall hoffers hs.receiver hs.token
      hs.contract haddress hraw
    exact hparse

/-- **A stream comes back unless its token is displaced**, in every registry in which streams are created
    by the well-known function and the tokens have different addresses. If the token is displaced, what
    is written is not read as a stream. -/
theorem parse_unparse_stream {file : Option String} (hload : Registry.load file = .ok ctx.registry)
    (hfactory : ctx.registry.lookup? ctx.chain "stream-factory" = some factory)
    (habi : factory.abi = Registry.knownAbi "stream-factory")
    (husdc : ctx.registry.lookup? ctx.chain "usdc-token" = some usdc)
    (hweth : ctx.registry.lookup? ctx.chain "weth-token" = some weth) (hne : usdc.address ≠ weth.address)
    (hs : s.IsReadable) {nonce : Nat} (hnonce : s.nonce = .int nonce) (hlimit : nonce ≤ 255) :
    ∃ name token raw, streamToken s.token = .ok name ∧
      ctx.registry.lookup? ctx.chain name = some token ∧
      unparseAs .stream ctx (.stream s) = .ok raw ∧
      (ctx.registry.identify? ctx.chain (.text token.address) = some token ∧
          parseAs .stream ctx raw = .ok (some (.stream s)) ∨
        (∃ other, ctx.registry.IsDisplacedBy ctx.chain token other) ∧
          parseAs .stream ctx raw = .ok none) := by
  have hindexed := Registry.isIndexed_of_load hload ctx.chain
  obtain ⟨name, token, hname, htoken, hcases⟩ := exists_tokenContract husdc hweth hs.token
  obtain ⟨raw, hraw, hparse⟩ :=
    exists_unparseStream hindexed hfactory habi hs hnonce hlimit hname htoken
  refine ⟨name, token, raw, hname, htoken, hraw, ?_⟩
  rcases Registry.found_or_displaced hindexed htoken with hfound | ⟨other, hother⟩
  · obtain ⟨currency, hcurrency, hcontract⟩ := currencyOfContract?_of_streamToken hs.token hname
    obtain ⟨htokenName, -, -⟩ := hindexed.named name token htoken
    have hat : currencyAt? ctx (.text token.address) = some currency := by
      unfold currencyAt?
      rw [hfound, Option.bind_some, htokenName, hcontract]
    rw [hat, Option.map_some, ← hcurrency] at hparse
    exact .inl ⟨hfound, hparse⟩
  · have hat : currencyAt? ctx (.text token.address) = none := by
      unfold currencyAt?
      rw [hother.found, Option.bind_some]
      exact currencyOfContract?_of_displaced husdc hweth hne hcases hother
    rw [hat] at hparse
    exact .inr ⟨⟨other, hother⟩, hparse⟩

/-- A contracts file that gives the token of a currency a second name. -/
def secondName : List (String × Value) :=
  [("1", .dict [("my-usdc", .dict [("address", .text "0xa0b86991c6218b36c1d19d4a2e9eb0ce3606eb48")])])]

/-- The built-in contracts and the token under its second name. -/
def secondNameContracts : List Contract :=
  Registry.builtInContracts ++ [⟨"my-usdc", "0xa0b86991c6218b36c1d19d4a2e9eb0ce3606eb48", []⟩]

/-- The surroundings of codecs with these contracts. -/
def secondNameContext : Context := ⟨1, Registry.onChain 1 secondNameContracts⟩

theorem isNormalAddress_secondName : ∀ c ∈ secondNameContracts, IsNormalAddress c.address :=
  List.forall_mem_append.mpr ⟨Registry.isNormalAddress_builtIn, List.forall_mem_singleton.mpr rfl⟩

theorem exists_load_secondName : ∃ file, Registry.load (some file) = .ok secondNameContext.registry := by
  have hd : (Value.dict secondName).IsDocument :=
    ⟨by decide, ⟨by decide, ⟨by decide, trivial, trivial⟩, trivial⟩, trivial⟩
  have hover : Registry.overlay Registry.builtInOverlay secondName =
    .ok [(1, secondNameContracts.map fun c => (c.name, c))] := rfl
  exact Registry.exists_load_eq_ok hd hover isNormalAddress_secondName

/-- A stream of some currency. -/
def streamOfCurrency (currency : Currency) : Stream :=
  ⟨.text "0x1111111111111111111111111111111111111111", .currency currency, .int 1000, .int 1, .int 2,
    .text "0x2222222222222222222222222222222222222222", .int 0⟩

theorem isReadable_streamOfCurrency {currency : Currency} (h : (Value.currency currency).IsStreamToken) :
    (streamOfCurrency currency).IsReadable :=
  ⟨⟨_, rfl, rfl⟩, h, ⟨1000, rfl, by decide⟩, ⟨1, rfl, by decide⟩, ⟨2, rfl, by decide⟩, ⟨_, rfl, rfl⟩,
    ⟨0, rfl, by decide⟩⟩

/-- The other token is where it was, and its streams come back. -/
theorem parse_unparse_stream_weth : ∃ file raw,
    Registry.load (some file) = .ok secondNameContext.registry ∧
    unparseAs .stream secondNameContext (.stream (streamOfCurrency .weth)) = .ok raw ∧
    parseAs .stream secondNameContext raw = .ok (some (.stream (streamOfCurrency .weth))) := by
  obtain ⟨file, hfile⟩ := exists_load_secondName
  obtain ⟨name, token, raw, hname, htoken, hraw, ⟨-, hparse⟩ | ⟨⟨other, hother⟩, -⟩⟩ :=
    parse_unparse_stream hfile rfl rfl rfl rfl (by decide)
      (isReadable_streamOfCurrency (.inr rfl)) rfl (by decide)
  · exact ⟨file, raw, hfile, hraw, hparse⟩
  · -- at its address the token itself is found
    cases hname
    cases htoken
    cases hother.found
    exact absurd rfl hother.name

/-- **Not every stream comes back**, even if all contracts keep their functions and no two of those of
    streams share an address: a second name for a token displaces it. -/
theorem not_parse_unparse_stream :
    ¬ ∀ (file : Option String) (ctx : Context) (factory usdc weth : Contract) (s : Stream) (nonce : Nat),
      Registry.load file = .ok ctx.registry →
      (∀ name c, ctx.registry.lookup? ctx.chain name = some c → c.abi = Registry.knownAbi name) →
      ctx.registry.lookup? ctx.chain "stream-factory" = some factory →
      ctx.registry.lookup? ctx.chain "usdc-token" = some usdc →
      ctx.registry.lookup? ctx.chain "weth-token" = some weth →
      [factory.address, usdc.address, weth.address].Nodup →
      s.IsReadable → s.nonce = .int nonce → nonce ≤ 255 →
      ∃ raw, unparseAs .stream ctx (.stream s) = .ok raw ∧
        parseAs .stream ctx raw = .ok (some (.stream s)) := by
  intro hall
  obtain ⟨file, hfile⟩ := exists_load_secondName
  have hreadable : (streamOfCurrency .usdc).IsReadable := isReadable_streamOfCurrency (.inl rfl)
  have hindexed := Registry.isIndexed_of_load hfile 1
  have habis : ∀ c ∈ secondNameContracts, c.abi = Registry.knownAbi c.name := by
    refine List.forall_mem_append.mpr ⟨fun c hc => ?_, List.forall_mem_singleton.mpr rfl⟩
    obtain ⟨entry, -, rfl⟩ := List.mem_map.mp hc
    rfl
  have hkeep : ∀ name c, secondNameContext.registry.lookup? secondNameContext.chain name = some c →
      c.abi = Registry.knownAbi name := by
    intro name c hc
    rcases Chain.mem_addAll (Chain.addAll_eq_ok isNormalAddress_secondName) (Table.mem_of_find? hc) with
      hnone | ⟨d, hd, hnormal⟩
    · exact absurd hnone List.not_mem_nil
    · obtain ⟨-, hname, habi⟩ := Contract.normalized_eq_ok hnormal
      obtain ⟨hsame, -, -⟩ := hindexed.named name c hc
      rw [← hsame, habi, hname]
      exact habis d hd
  obtain ⟨raw, hraw, hback⟩ :=
    hall _ _ _ _ _ _ 0 hfile hkeep rfl rfl rfl (by decide) hreadable rfl (by decide)
  obtain ⟨raw', hraw', hparse⟩ :=
    exists_unparseStream hindexed rfl rfl hreadable rfl (Nat.zero_le _) rfl rfl
  obtain rfl := Except.ok.inj (hraw.symm.trans hraw')
  exact absurd (hback.symm.trans hparse) nofun

end Codec

end Proposals
