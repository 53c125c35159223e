import Proposals.Registry

/-!
# `Proposals.Registry.BuiltIn` — the built-in table

## Contents
- `mainnet`: the chain that the table knows.
- `knownAbi`: the functions of the well-known contracts, on every chain.
- `builtInEntries`, `builtIn`: the table and its registry.
-/

namespace Proposals.Registry

/-- The chain of the built-in contracts. -/
def mainnet : Int := 1

/-- The functions of the contract with a well-known name. -/
def knownAbi (name : String) : List Value :=
  (((Table.find? name [
    ("payer", ["sendOrRegisterDebt(address,uint256)"]),
    ("stream-factory", ["createStream(address,uint256,address,uint256,uint256,uint8,address)"]),
    ("token", ["safeTransferFrom(address,address,uint256)"]),
    ("weth-token", ["deposit()", "transfer(address,uint256)", "approve(address,uint256)"]),
    ("usdc-token", ["transfer(address,uint256)", "approve(address,uint256)"])])).getD []).map .text

/-- The addresses of the built-in contracts. -/
def builtInAddresses : List (String × String) := [
  ("executor", "0xb1a32fc9f9d8b2cf86c068cae13108809547ef71"),
  ("payer", "0xd97bcd9f47cee35c0a9ec1dc40c1269afc9e8e1d"),
  ("token-buyer", "0x4f2acdc74f6941390d9b1804fabc3e780388cfe5"),
  ("stream-factory", "0x0fd206fc7a7dbcd5661157edcb1ffdd0d02a61ff"),
  ("token", "0x9c8ff314c9bc7f6e59a9d9225fb22946427edc03"),
  ("weth-token", "0xc02aaa39b223fe8d0a0e5c4f27ead9083c756cc2"),
  ("usdc-token", "0xa0b86991c6218b36c1d19d4a2e9eb0ce3606eb48")]

/-- The contracts of the built-in table. -/
def builtInContracts : List Contract :=
  builtInAddresses.map fun (name, address) => ⟨name, address, knownAbi name⟩

/-- The entries of the built-in table. -/
def builtInEntries : List (Int × List Contract) := [(mainnet, builtInContracts)]

/-- The registry of the built-in table. -/
def builtIn : Outcome Registry := ofEntries builtInEntries

end Proposals.Registry
