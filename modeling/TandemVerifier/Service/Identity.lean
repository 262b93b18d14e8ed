import TandemVerifier.Core.Persistence
import TandemVerifier.Service.Agreement

/-! # Names of deployments and blocks

Hashes are named by hexadecimal text, transactions and blocks by the text of the reversed
hash, a deployment by its network and its INIT transaction. Everything a service shows or
signs is text; these names can be read back, so that equal text means equal data.
-/
namespace TandemVerifier
open Library Library.Outcome

section Hashes

/-- The hash with its bytes in the opposite order. -/
def Hash32.reverse (hash : Hash32) : Hash32 := ⟨hash.toList.reverse,by simp⟩

/-- Parse a conventional display-order hash into wire order. -/
def wireHash (display : String) : Except Hex.Error Hash32 := (Hash32.fromHex display).map Hash32.reverse

@[simp] theorem Hash32.reverse_reverse (hash : Hash32) : hash.reverse.reverse = hash := by
  apply ByteVector.ext
  simp [Hash32.reverse]

theorem hexEncode_eq (bytes : Bytes) : hexEncode bytes = Hex.encode bytes := by
  have hdigit : ∀ value < 16, Nat.digitChar value = Hex.digit value := by decide
  have hbyte : ∀ byte : UInt8,
      [Nat.digitChar (byte.toNat / 16),Nat.digitChar (byte.toNat % 16)] = Hex.encodeByte byte := by
    intro byte
    have hlt := byte.toNat_lt
    rw [hdigit _ (by omega),hdigit _ (by omega),Hex.encodeByte]
  rw [hexEncode,Hex.encode]
  simp only [hbyte]

theorem displayHash_eq (hash : Hash32) : displayHash hash = Hash32.toHex hash.reverse :=
  hexEncode_eq _

/-- The displayed text of a hash reads back as the hash. -/
theorem wireHash_displayHash (hash : Hash32) : wireHash (displayHash hash) = .ok hash := by
  rw [wireHash,displayHash_eq,Hash32.fromHex,Hash32.toHex,Hex.decodeToSlice_encode]
  exact congrArg Except.ok hash.reverse_reverse

theorem displayHash_injective : Function.Injective displayHash := by
  intro a b h
  have hread := congrArg wireHash h
  rw [wireHash_displayHash,wireHash_displayHash] at hread
  exact Except.ok.inj hread

theorem hexEncode_injective {n : ℕ} {a b : ByteVector n} (h : hexEncode a.toList = hexEncode b.toList) :
    a = b := by
  rw [hexEncode_eq,hexEncode_eq] at h
  have hread := congrArg (Hex.decodeToSlice n) h
  rw [Hex.decodeToSlice_encode,Hex.decodeToSlice_encode] at hread
  exact Except.ok.inj hread

end Hashes

section Deployments

/-- `Network::from_str`. -/
def Network.fromStr (value : String) : Option Network :=
  if value = "mainnet" then some mainnet
  else if value = "signet" then some signet
  else if value = "testnet4" then some testnet4
  else if value = "regtest" then some regtest
  else none

theorem Network.fromStr_eq_some {value : String} {network : Network} :
    fromStr value = some network ↔ value = network.label := by
  constructor
  · intro h
    unfold fromStr at h
    split_ifs at h with hmain hsig htest hreg <;> obtain rfl := Option.some.inj h <;> assumption
  · rintro rfl
    cases network <;> decide

theorem append_left_injective {a b c : String} (h : a ++ b = a ++ c) : b = c := by
  have hlist := congrArg String.toList h
  rw [String.toList_append,String.toList_append,List.append_cancel_left_eq] at hlist
  exact String.toList_injective hlist

/-- A protocol identifier names one network and one INIT transaction. -/
theorem protocolId_injective {a b : Binding} (h : a.protocolId = b.protocolId) :
    a.network = b.network ∧ a.initTxid = b.initTxid := by
  simp only [Binding.protocolId,String.append_assoc] at h
  have hrest := append_left_injective h
  -- the labels begin with different letters
  have hlabel : a.network = b.network := by
    have hhead := congrArg (fun text : String => text.toList.head?) hrest
    cases ha : a.network <;> cases hb : b.network <;> first | rfl | simp [ha,hb,Network.label] at hhead
  rw [hlabel] at hrest
  exact ⟨hlabel,displayHash_injective (append_left_injective (append_left_injective hrest))⟩

end Deployments
end TandemVerifier
