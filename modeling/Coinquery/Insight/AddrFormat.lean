import Coinquery.Cashaddr.Address

/-!
# Legacy and cashaddr address formats in the Insight API

The database stores Bitcoin Cash addresses in cashaddr form, and the Insight API speaks legacy
Base58Check addresses. `normalizeAddrFormat` of `pkg/api/insight/helpers.go` turns a stored
address into a legacy one, and the loop of `BCHInterceptor` in `insight.go` turns each requested
legacy address into cashaddr form. Both go through `btcutil`, which the repository does not
contain: its calls are a parameter `Btcutil`, with what the package documents of them as laws, and
its Base58Check codec is a parameter whose law is that decoding inverts encoding.

Both directions write the pay-to-pubkey-hash form whatever the address was: `normalizeAddrFormat`
drops the type it decoded, and `BCHInterceptor` encodes as `P2PKH`. Pay-to-pubkey-hash addresses
go back and forth (`normalizeAddrFormat_interceptAddress_pubKeyHash`); a pay-to-script-hash
address does not.
-/

namespace Coinquery.Insight

open Cashaddr

/-- `base58.CheckEncode` and `base58.CheckDecode` of `btcutil`, with the law that decoding
inverts encoding. -/
structure Base58Check where
  checkEncode : Data → UInt8 → Data
  checkDecode : Data → Except String (Data × UInt8)
  checkDecode_checkEncode : ∀ input version, checkDecode (checkEncode input version) = .ok (input, version)

/-- The calls the Insight API makes into `btcutil`, over its addresses of type `Address`:
`NewAddressPubKeyHash`, `DecodeAddress`, and an address's `EncodeAddress` and `ScriptAddress`. The
package is not in the repository; the laws are what it documents of these calls and the proofs
use: a 20-byte hash makes a pay-to-pubkey-hash address that encodes as the Base58Check of the hash
after the network's version byte, and the mainnet Base58Check strings of a 20-byte hash with the
pay-to-pubkey-hash or the pay-to-script-hash version byte decode to an address whose
`ScriptAddress` is the hash. -/
structure Btcutil (Address : Type) where
  /-- The package's `base58` codec. -/
  base58 : Base58Check
  newAddressPubKeyHash : Data → Params → Except String Address
  decodeAddress : Data → Params → Except String Address
  encodeAddress : Address → Data
  scriptAddress : Address → Data
  newAddressPubKeyHash_encodeAddress : ∀ pkHash net, pkHash.length = 20 →
    ∃ addr, newAddressPubKeyHash pkHash net = .ok addr ∧
      encodeAddress addr = base58.checkEncode pkHash net.pubKeyHashAddrID
  decodeAddress_pubKeyHash : ∀ hash, hash.length = 20 →
    ∃ addr, decodeAddress (base58.checkEncode hash mainNetParams.pubKeyHashAddrID) mainNetParams =
      .ok addr ∧ scriptAddress addr = hash
  decodeAddress_scriptHash : ∀ hash, hash.length = 20 →
    ∃ addr, decodeAddress (base58.checkEncode hash mainNetParams.scriptHashAddrID) mainNetParams =
      .ok addr ∧ scriptAddress addr = hash

variable {Address : Type}

/-- The error of `errors.Wrapf(err, format, ...)` and `errors.Wrap(err, message)`: the message,
then the cause. -/
structure Wrapped where
  message : Data
  cause : String
deriving DecidableEq

def bitcoincash : Data :=
  ascii "bitcoincash"

/-- `normalizeAddrFormat(addr)`. -/
def normalizeAddrFormat (btcutil : Btcutil Address) (addr : Data) : Option (Except Wrapped Data) :=
  if addr.take 12 = ascii "bitcoincash:" then
    match checkDecodeCashAddress addr with
    | none => none
    | some (.error e) => some (.error ⟨ascii "failed to decode BCH cashaddr format from: " ++ addr, e⟩)
    | some (.ok (bytes, _, _)) =>
      match btcutil.newAddressPubKeyHash bytes mainNetParams with
      | .error e => some (.error ⟨ascii "failed to create PKH address from bytes", e⟩)
      | .ok addrPKH => some (.ok (btcutil.encodeAddress addrPKH))
  else some (.ok addr)

/-- The body of the loop of `BCHInterceptor`, for one requested address. A failed decode is only
logged: `decoded` is then a nil `btcutil.Address`, and `decoded.ScriptAddress()` panics. -/
def interceptAddress (btcutil : Btcutil Address) (addr : Data) : Option Data :=
  match btcutil.decodeAddress addr mainNetParams with
  | .error _ => none
  | .ok decoded =>
    (checkEncodeCashAddress (btcutil.scriptAddress decoded) bitcoincash P2PKH).map fun encoded =>
      ascii "bitcoincash:" ++ encoded

/-! ## The two directions -/

theorem bitcoincash_lowercase : bitcoincash ≠ [] ∧ ∀ c ∈ bitcoincash, isLowerByte c = true :=
  prefixes_lowercase (show prefixes mainNetParams.name = some bitcoincash from rfl)

theorem bitcoincash_separator (cash : Data) :
    ascii "bitcoincash:" ++ cash = bitcoincash ++ ':'.toUInt8 :: cash := by
  rw [show ascii "bitcoincash:" = bitcoincash ++ [':'.toUInt8] by decide, List.append_assoc,
    List.singleton_append]

/-- A stored cashaddr of a 20-byte hash becomes the mainnet pay-to-pubkey-hash address of the
hash, whatever type it was stored with. -/
theorem normalizeAddrFormat_of_checkDecode (btcutil : Btcutil Address) {cash hash pre : Data}
    {t : AddressType} (decoded : checkDecodeCashAddress (ascii "bitcoincash:" ++ cash) = some (.ok (hash, pre, t)))
    (length_hash : hash.length = 20) :
    normalizeAddrFormat btcutil (ascii "bitcoincash:" ++ cash) =
      some (.ok (btcutil.base58.checkEncode hash 0x00)) := by
  have starts : (ascii "bitcoincash:" ++ cash).take 12 = ascii "bitcoincash:" :=
    List.take_left' (by decide)
  obtain ⟨addrPKH, created, encoded⟩ :=
    btcutil.newAddressPubKeyHash_encodeAddress hash mainNetParams length_hash
  simp only [normalizeAddrFormat, starts, if_true, decoded, created, encoded]
  rfl

/-- A requested legacy address that decodes becomes the cashaddr pay-to-pubkey-hash address of
its `ScriptAddress`, whatever its type. -/
theorem interceptAddress_of_decodeAddress (btcutil : Btcutil Address) {addr hash cash : Data}
    {decoded : Address} (decodes : btcutil.decodeAddress addr mainNetParams = .ok decoded)
    (script : btcutil.scriptAddress decoded = hash)
    (encoded : checkEncodeCashAddress hash bitcoincash P2PKH = some cash) :
    interceptAddress btcutil addr = some (ascii "bitcoincash:" ++ cash) := by
  rw [interceptAddress, decodes]
  simp only [script, encoded, Option.map_some]

/-- A stand-in for `btcutil` whose Base58Check writes the version byte in front of the payload, and
whose addresses are a hash with its version byte. -/
def versionInFront : Btcutil (Data × UInt8) where
  base58 :=
    { checkEncode := fun input version => version :: input
      checkDecode := fun encoded =>
        match encoded with
        | [] => .error "invalid format: version and/or checksum bytes missing"
        | version :: input => .ok (input, version)
      checkDecode_checkEncode := fun _ _ => rfl }
  newAddressPubKeyHash pkHash net :=
    if pkHash.length = 20 then .ok (pkHash, net.pubKeyHashAddrID) else .error "pkHash must be 20 bytes"
  decodeAddress addr _ :=
    match addr with
    | [] => .error "invalid format: version and/or checksum bytes missing"
    | version :: hash => .ok (hash, version)
  encodeAddress addr := addr.2 :: addr.1
  scriptAddress addr := addr.1
  newAddressPubKeyHash_encodeAddress pkHash net twenty := ⟨(pkHash, net.pubKeyHashAddrID), if_pos twenty, rfl⟩
  decodeAddress_pubKeyHash hash _ := ⟨(hash, 0x00), rfl, rfl⟩
  decodeAddress_scriptHash hash _ := ⟨(hash, 0x05), rfl, rfl⟩

/-- Pay-to-pubkey-hash addresses of 20-byte hashes go to legacy form and back. -/
theorem normalizeAddrFormat_interceptAddress_pubKeyHash (btcutil : Btcutil Address) {hash : Data}
    (length_hash : hash.length = 20) :
    ∃ cash, checkEncodeCashAddress hash bitcoincash P2PKH = some cash ∧
      normalizeAddrFormat btcutil (ascii "bitcoincash:" ++ cash) =
        some (.ok (btcutil.base58.checkEncode hash 0x00)) ∧
      interceptAddress btcutil (btcutil.base58.checkEncode hash 0x00) =
        some (ascii "bitcoincash:" ++ cash) := by
  obtain ⟨cash, encoded, decoded⟩ := checkDecodeCashAddress_checkEncodeCashAddress
    bitcoincash_lowercase.1 bitcoincash_lowercase.2 length_hash (.inl rfl)
  rw [← bitcoincash_separator] at decoded
  refine ⟨cash, encoded, normalizeAddrFormat_of_checkDecode btcutil decoded length_hash, ?_⟩
  -- the mainnet pay-to-pubkey-hash version byte is `0x00`
  obtain ⟨legacy, decodes, script⟩ : ∃ addr, btcutil.decodeAddress
      (btcutil.base58.checkEncode hash 0x00) mainNetParams = .ok addr ∧ btcutil.scriptAddress addr = hash :=
    btcutil.decodeAddress_pubKeyHash hash length_hash
  exact interceptAddress_of_decodeAddress btcutil decodes script encoded

theorem normalizeAddrFormat_interceptAddress_pubKeyHash_zero :
    (List.replicate 20 0 : Data).length = 20 ∧
      ∃ cash, checkEncodeCashAddress (List.replicate 20 0) bitcoincash P2PKH = some cash ∧
        normalizeAddrFormat versionInFront (ascii "bitcoincash:" ++ cash) =
          some (.ok (versionInFront.base58.checkEncode (List.replicate 20 0) 0x00)) ∧
        interceptAddress versionInFront (versionInFront.base58.checkEncode (List.replicate 20 0) 0x00) =
          some (ascii "bitcoincash:" ++ cash) :=
  ⟨List.length_replicate,
    normalizeAddrFormat_interceptAddress_pubKeyHash versionInFront List.length_replicate⟩

/-- A pay-to-script-hash cashaddr comes out of `normalizeAddrFormat` as the legacy
pay-to-pubkey-hash address of its hash, not the pay-to-script-hash one; and the loop of
`BCHInterceptor` turns the legacy pay-to-script-hash address into the cashaddr pay-to-pubkey-hash
address, another string. -/
theorem script_hash_addresses_become_pubkey_hash (btcutil : Btcutil Address) {hash : Data}
    (length_hash : hash.length = 20) :
    ∃ cash, checkEncodeCashAddress hash bitcoincash P2SH = some cash ∧
      normalizeAddrFormat btcutil (ascii "bitcoincash:" ++ cash) =
        some (.ok (btcutil.base58.checkEncode hash 0x00)) ∧
      btcutil.base58.checkEncode hash 0x00 ≠ btcutil.base58.checkEncode hash 0x05 ∧
      ∃ cashPKH, checkEncodeCashAddress hash bitcoincash P2PKH = some cashPKH ∧
        interceptAddress btcutil (btcutil.base58.checkEncode hash 0x05) =
          some (ascii "bitcoincash:" ++ cashPKH) ∧
        cashPKH ≠ cash := by
  obtain ⟨cash, encoded, decoded⟩ := checkDecodeCashAddress_checkEncodeCashAddress
    bitcoincash_lowercase.1 bitcoincash_lowercase.2 length_hash (.inr rfl)
  obtain ⟨cashPKH, encodedPKH, decodedPKH⟩ := checkDecodeCashAddress_checkEncodeCashAddress
    bitcoincash_lowercase.1 bitcoincash_lowercase.2 length_hash (.inl rfl)
  rw [← bitcoincash_separator] at decoded decodedPKH
  refine ⟨cash, encoded, normalizeAddrFormat_of_checkDecode btcutil decoded length_hash, ?_, cashPKH,
    encodedPKH, ?_, ?_⟩
  · -- the codec reads the version byte back
    intro same
    have versions := congrArg btcutil.base58.checkDecode same
    rw [btcutil.base58.checkDecode_checkEncode, btcutil.base58.checkDecode_checkEncode] at versions
    simp at versions
  · -- the mainnet pay-to-script-hash version byte is `0x05`
    obtain ⟨legacy, decodes, script⟩ : ∃ addr, btcutil.decodeAddress
        (btcutil.base58.checkEncode hash 0x05) mainNetParams = .ok addr ∧
          btcutil.scriptAddress addr = hash :=
      btcutil.decodeAddress_scriptHash hash length_hash
    exact interceptAddress_of_decodeAddress btcutil decodes script encodedPKH
  · -- one string would decode to both types
    rintro rfl
    rw [decoded, Option.some.injEq, Except.ok.injEq] at decodedPKH
    simp [P2PKH, P2SH] at decodedPKH

theorem script_hash_addresses_become_pubkey_hash_zero :
    (List.replicate 20 0 : Data).length = 20 ∧
      ∃ cash, checkEncodeCashAddress (List.replicate 20 0) bitcoincash P2SH = some cash ∧
        normalizeAddrFormat versionInFront (ascii "bitcoincash:" ++ cash) =
          some (.ok (versionInFront.base58.checkEncode (List.replicate 20 0) 0x00)) ∧
        versionInFront.base58.checkEncode (List.replicate 20 0) 0x00 ≠
          versionInFront.base58.checkEncode (List.replicate 20 0) 0x05 ∧
        ∃ cashPKH, checkEncodeCashAddress (List.replicate 20 0) bitcoincash P2PKH = some cashPKH ∧
          interceptAddress versionInFront (versionInFront.base58.checkEncode (List.replicate 20 0) 0x05) =
            some (ascii "bitcoincash:" ++ cashPKH) ∧
          cashPKH ≠ cash :=
  ⟨List.length_replicate, script_hash_addresses_become_pubkey_hash versionInFront List.length_replicate⟩

end Coinquery.Insight
