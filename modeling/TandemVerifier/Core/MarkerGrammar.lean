import TandemVerifier.Core.Marker

/-! # The language accepted by the marker parser

Detection is broad and parsing strict. Together they accept `OP_RETURN` followed by
the shortest push of a well-formed payload and nothing else. The script is rebuilt
from the payload, so acceptance also means that the payload determines the script.
-/
namespace TandemVerifier
open Library Library.Outcome

/-- The canonical push encoder `marker_script` of the reducer tests. -/
def markerScript (payload : Bytes) : Bytes :=
  if payload.length ≤ 75 then [0x6a,UInt8.ofNat payload.length] ++ payload
  else [0x6a,0x4c,UInt8.ofNat payload.length] ++ payload

/-- The payloads of the grammar: magic, length and the exact length of each opcode. -/
structure MarkerPayload (payload : Bytes) : Prop where
  magic : payload.take 4 = magic
  lower : 7 ≤ payload.length
  upper : payload.length ≤ 80
  exact_length : ∀ entry ∈ [((0 : UInt8),59),(1,40),(2,78),(3,44),(4,80)],
    payload[6]? = some entry.1 → payload.length = entry.2

/-- Detection followed by parsing. -/
def parseScript (script : Bytes) (vout : UInt32) : Option (Outcome Reason ParsedMarker) :=
  (findMarkerCandidate script vout).map MarkerCandidate.parse

section Inversion
variable {script bytes : Bytes} {vout : UInt32} {candidate : MarkerCandidate} {marker : ParsedMarker}

theorem getRange_eq_some {start stop : ℕ} :
    getRange script start stop = some bytes ↔
      stop ≤ script.length ∧ (script.drop start).take (stop - start) = bytes := by
  unfold getRange
  split <;> simp_all

/-- The pushes that survive the check for a shortest encoding of at most 80 bytes. -/
theorem pushHeader_minimal {opcode : UInt8} {declaredLen prefixLen : ℕ} {complete : Bool}
    (h : pushHeader script opcode = some (declaredLen,prefixLen,complete,true))
    (hupper : declaredLen ≤ 80) : complete = true ∧
      ((prefixLen = 2 ∧ declaredLen ≤ 75 ∧ opcode = UInt8.ofNat declaredLen) ∨
      (prefixLen = 3 ∧ 75 < declaredLen ∧ opcode = 0x4c ∧
        script[2]? = some (UInt8.ofNat declaredLen))) := by
  unfold pushHeader at h
  split at h
  · next hdirect =>
    simp only [Option.some.injEq,Prod.mk.injEq] at h
    obtain ⟨rfl,rfl,rfl,_⟩ := h
    have hle := UInt8.le_iff_toNat_le.mp hdirect.2
    exact ⟨rfl,Or.inl ⟨rfl,hle,by simp⟩⟩
  · split at h
    · next hone =>
      simp only [Option.bind_eq_bind,Option.bind_eq_some_iff,Option.some.injEq,Prod.mk.injEq,
        decide_eq_true_eq] at h
      obtain ⟨length,hlength,rfl,rfl,rfl,hminimal⟩ := h
      have hle := UInt8.le_iff_toNat_le.mp hminimal
      exact ⟨rfl,Or.inr ⟨rfl,hle,hone,by simpa using hlength⟩⟩
    · split at h
      · simp only [Option.bind_eq_bind,Option.bind_eq_some_iff,Option.some.injEq,Prod.mk.injEq,
          decide_eq_true_eq] at h
        obtain ⟨length,_,rfl,_,_,hminimal⟩ := h
        omega
      · split at h
        · simp only [Option.bind_eq_bind,Option.bind_eq_some_iff,Option.some.injEq,Prod.mk.injEq,
            decide_eq_true_eq] at h
          obtain ⟨length,_,rfl,_,_,hminimal⟩ := h
          omega
        · simp at h

theorem findMarkerCandidate_eq_some :
    findMarkerCandidate script vout = some candidate ↔
      ∃ opcode declaredLen prefixLen minimalPush, script[0]? = some 0x6a ∧ script[1]? = some opcode ∧
        pushHeader script opcode = some (declaredLen,prefixLen,true,minimalPush) ∧ 4 ≤ declaredLen ∧
        prefixLen + 4 ≤ script.length ∧ (script.drop prefixLen).take 4 = magic ∧
        candidate = ⟨vout,declaredLen,
          (script.drop prefixLen).take (min declaredLen (script.length - prefixLen)),true,
          decide (declaredLen ≤ script.length - prefixLen),
          script.length - prefixLen == declaredLen,minimalPush⟩ := by
  unfold findMarkerCandidate
  constructor
  · intro h
    split at h
    · simp at h
    · next hreturn =>
      simp only [Option.bind_eq_bind,Option.bind_eq_some_iff,Prod.exists] at h
      obtain ⟨opcode,hopcode,declaredLen,prefixLen,complete,minimalPush,hheader,h⟩ := h
      split at h
      · simp at h
      · next hlong =>
        simp only [Bool.or_eq_true,Bool.not_eq_true',decide_eq_true_eq,not_or,Bool.not_eq_false,
          Nat.not_lt] at hlong
        obtain ⟨rfl,hlong⟩ := hlong
        split at h
        · simp at h
        · next hmagic =>
          simp only [not_or,Nat.not_lt,Decidable.not_not,getRange_eq_some,
            Nat.add_sub_cancel_left] at hmagic
          exact ⟨opcode,declaredLen,prefixLen,minimalPush,Decidable.not_not.mp hreturn,hopcode,hheader,
            hlong,hmagic.2.1,hmagic.2.2,(Option.some.inj h).symm⟩
  · rintro ⟨opcode,declaredLen,prefixLen,minimalPush,hreturn,hopcode,hheader,hlong,hlength,hmagic,rfl⟩
    have hrange : getRange script prefixLen (prefixLen + 4) = some magic :=
      getRange_eq_some.mpr ⟨hlength,by rw [Nat.add_sub_cancel_left]; exact hmagic⟩
    have havailable : ¬(script.length - prefixLen < 4) := by omega
    have hdeclared : ¬(declaredLen < 4) := by omega
    simp [hreturn,hopcode,hheader,hrange,havailable,hdeclared]

theorem parse_eq_ok : candidate.parse = ok marker ↔ candidate.prefixComplete = true ∧
    7 ≤ candidate.declaredLen ∧ candidate.declaredLen ≤ 80 ∧ candidate.payloadComplete = true ∧
    candidate.noTrailingBytes = true ∧ candidate.minimalPush = true ∧ marker.vout = candidate.vout ∧
    candidate.payload[4]? = some marker.version ∧ candidate.payload[5]? = some marker.network ∧
    candidate.payload[6]? = some marker.opcodeByte ∧
    marker.opcode = Opcode.fromByte marker.opcodeByte ∧ marker.payload = candidate.payload ∧
    ∀ opcode, marker.opcode = some opcode → candidate.payload.length = opcode.payloadLen := by
  simp only [MarkerCandidate.parse,bind_eq_ok,failIf_eq_ok,index_eq_ok,exists_const,pure_eq_ok,
    Outcome.ok.injEq,Bool.or_eq_false_iff,Bool.not_eq_false',Bool.and_eq_true,decide_eq_true_eq]
  constructor
  · rintro ⟨⟨⟨⟨⟨hopening,hlower,hupper⟩,hcomplete⟩,htrailing⟩,hminimal⟩,version,hversion,network,
      hnetwork,opcodeByte,hopcode,hlength,rfl⟩
    refine ⟨hopening,hlower,hupper,hcomplete,htrailing,hminimal,rfl,hversion,hnetwork,hopcode,rfl,rfl,?_⟩
    intro opcode hknown
    simp only at hknown
    rw [hknown] at hlength
    simpa using (bne_eq_false_iff_eq.mp hlength).symm
  · rintro ⟨hopening,hlower,hupper,hcomplete,htrailing,hminimal,hvout,hversion,hnetwork,hopcode,
      hknown,hpayload,hlength⟩
    refine ⟨⟨⟨⟨⟨hopening,hlower,hupper⟩,hcomplete⟩,htrailing⟩,hminimal⟩,marker.version,hversion,
      marker.network,hnetwork,marker.opcodeByte,hopcode,?_,?_⟩
    · rw [← hknown]
      cases hcase : marker.opcode with
      | none => rfl
      | some opcode => simpa using (hlength opcode hcase).symm
    · rw [← hvout,← hknown,← hpayload]

theorem Opcode.fromByte_eq_some {byte : UInt8} {opcode : Opcode} (h : Opcode.fromByte byte = some opcode) :
    (byte,opcode.payloadLen) ∈ [((0 : UInt8),59),(1,40),(2,78),(3,44),(4,80)] := by
  simp only [fromByte] at h
  split_ifs at h <;> (obtain rfl := Option.some.inj h; simp_all [payloadLen])

theorem Opcode.fromByte_isSome {byte : UInt8} {length : ℕ}
    (h : (byte,length) ∈ [((0 : UInt8),59),(1,40),(2,78),(3,44),(4,80)]) :
    ∃ opcode, Opcode.fromByte byte = some opcode ∧ opcode.payloadLen = length := by
  simp only [List.mem_cons,Prod.mk.injEq,List.not_mem_nil,or_false] at h
  rcases h with ⟨rfl,rfl⟩ | ⟨rfl,rfl⟩ | ⟨rfl,rfl⟩ | ⟨rfl,rfl⟩ | ⟨rfl,rfl⟩
  · exact ⟨.init,rfl,rfl⟩
  · exact ⟨.create,rfl,rfl⟩
  · exact ⟨.mark,rfl,rfl⟩
  · exact ⟨.rotate,rfl,rfl⟩
  · exact ⟨.close,rfl,rfl⟩

theorem eq_cons_cons_drop {a b : UInt8} (h0 : script[0]? = some a) (h1 : script[1]? = some b) :
    script = a :: b :: script.drop 2 := by
  cases script with
  | nil => simp at h0
  | cons x rest =>
    cases rest with
    | nil => simp at h1
    | cons y rest => simp_all

/-- A shortest push without trailing bytes is the canonical push of what it pushes. -/
theorem markerScript_of_push {opcode : UInt8} {declaredLen prefixLen : ℕ}
    (hreturn : script[0]? = some 0x6a) (hopcode : script[1]? = some opcode)
    (hheader : pushHeader script opcode = some (declaredLen,prefixLen,true,true))
    (hupper : declaredLen ≤ 80) (hall : script.length - prefixLen = declaredLen) :
    script = markerScript (script.drop prefixLen) := by
  have hlength : (script.drop prefixLen).length = declaredLen := by rw [List.length_drop,hall]
  have hscript := eq_cons_cons_drop hreturn hopcode
  obtain ⟨_,hcases⟩ := pushHeader_minimal hheader hupper
  rcases hcases with ⟨rfl,hle,rfl⟩ | ⟨rfl,hlt,rfl,hbyte⟩
  · rw [markerScript,hlength,if_pos hle]
    exact hscript
  · rw [markerScript,hlength,if_neg (by omega)]
    have hrest : script.drop 2 = UInt8.ofNat declaredLen :: script.drop 3 :=
      List.drop_eq_getElem?_toList_append.trans (by rw [hbyte]; rfl)
    rw [hrest] at hscript
    exact hscript

theorem parseScript_sound (h : parseScript script vout = some (ok marker)) :
    script = markerScript marker.payload ∧ MarkerPayload marker.payload ∧ marker.vout = vout ∧
      marker.payload[4]? = some marker.version ∧ marker.payload[5]? = some marker.network ∧
      marker.payload[6]? = some marker.opcodeByte ∧
      marker.opcode = Opcode.fromByte marker.opcodeByte := by
  obtain ⟨candidate,hcandidate,hparse⟩ := Option.map_eq_some_iff.mp h
  obtain ⟨_,hlower,hupper,_,hall,hminimal,hvout,hversion,hnetwork,hopcodeByte,hopcode,hpayload,hexact⟩ :=
    parse_eq_ok.mp hparse
  obtain ⟨opcode,declaredLen,prefixLen,minimalPush,hreturn,hsecond,hheader,_,hopening,hmagic,rfl⟩ :=
    findMarkerCandidate_eq_some.mp hcandidate
  simp only [beq_iff_eq] at hlower hupper hall hminimal hvout hversion hnetwork hopcodeByte hpayload hexact
  subst hminimal
  have hrest : marker.payload = script.drop prefixLen := by
    rw [hpayload,hall,Nat.min_self]
    exact List.take_of_length_le (by rw [List.length_drop,hall])
  have hlength : marker.payload.length = declaredLen := by rw [hrest,List.length_drop,hall]
  rw [← hpayload] at hversion hnetwork hopcodeByte hexact
  refine ⟨?_,⟨hrest ▸ hmagic,hlength ▸ hlower,hlength ▸ hupper,?_⟩,hvout,hversion,hnetwork,hopcodeByte,
    hopcode⟩
  · rw [hrest]
    exact markerScript_of_push hreturn hsecond hheader hupper hall
  · rintro ⟨byte,length⟩ hentry hbyte
    obtain ⟨known,hknown,rfl⟩ := Opcode.fromByte_isSome hentry
    obtain rfl : marker.opcodeByte = byte := Option.some.inj (hopcodeByte.symm.trans hbyte)
    exact hexact known (hopcode.trans hknown)

/-- The push header of a canonical script. -/
theorem pushHeader_markerScript {payload : Bytes} (hlower : 7 ≤ payload.length)
    (hupper : payload.length ≤ 80) : ∃ opcode prefixLen, (markerScript payload)[0]? = some 0x6a ∧
      (markerScript payload)[1]? = some opcode ∧
      pushHeader (markerScript payload) opcode = some (payload.length,prefixLen,true,true) ∧
      (markerScript payload).drop prefixLen = payload ∧
      (markerScript payload).length = prefixLen + payload.length := by
  have hbyte : (UInt8.ofNat payload.length).toNat = payload.length := by
    rw [UInt8.toNat_ofNat']
    omega
  unfold markerScript
  by_cases hshort : payload.length ≤ 75
  · rw [if_pos hshort]
    refine ⟨UInt8.ofNat payload.length,2,rfl,rfl,?_,rfl,by simp; omega⟩
    have hdirect : (0x01 : UInt8) ≤ UInt8.ofNat payload.length ∧
        UInt8.ofNat payload.length ≤ (0x4b : UInt8) := by
      rw [UInt8.le_iff_toNat_le,UInt8.le_iff_toNat_le,hbyte]
      exact ⟨Nat.le_trans (by decide) hlower,hshort⟩
    rw [pushHeader,if_pos hdirect,hbyte]
  · rw [if_neg hshort]
    refine ⟨0x4c,3,rfl,rfl,?_,rfl,by simp; omega⟩
    have hminimal : (0x4c : UInt8) ≤ UInt8.ofNat payload.length := by
      rw [UInt8.le_iff_toNat_le,hbyte]
      exact Nat.lt_of_not_le hshort
    have hdirect : ¬((0x01 : UInt8) ≤ 0x4c ∧ (0x4c : UInt8) ≤ 0x4b) := by decide
    rw [pushHeader,if_neg hdirect,if_pos rfl]
    simp [hbyte,hminimal]

theorem parseScript_complete (h : MarkerPayload marker.payload)
    (hversion : marker.payload[4]? = some marker.version)
    (hnetwork : marker.payload[5]? = some marker.network)
    (hopcodeByte : marker.payload[6]? = some marker.opcodeByte)
    (hopcode : marker.opcode = Opcode.fromByte marker.opcodeByte) :
    parseScript (markerScript marker.payload) marker.vout = some (ok marker) := by
  obtain ⟨opcode,prefixLen,hreturn,hsecond,hheader,hdrop,hlength⟩ :=
    pushHeader_markerScript h.lower h.upper
  have hlower := h.lower
  have hall : (markerScript marker.payload).length - prefixLen = marker.payload.length := by omega
  have hcandidate : findMarkerCandidate (markerScript marker.payload) marker.vout =
      some ⟨marker.vout,marker.payload.length,marker.payload,true,true,true,true⟩ := by
    refine findMarkerCandidate_eq_some.mpr ⟨opcode,marker.payload.length,prefixLen,true,hreturn,
      hsecond,hheader,by omega,by omega,by rw [hdrop]; exact h.magic,?_⟩
    rw [hall,hdrop,Nat.min_self,List.take_length]
    simp
  rw [parseScript,hcandidate,Option.map_some,Option.some.injEq]
  refine parse_eq_ok.mpr ⟨rfl,h.lower,h.upper,rfl,rfl,rfl,rfl,hversion,hnetwork,hopcodeByte,hopcode,
    rfl,?_⟩
  intro known hknown
  rw [hopcode] at hknown
  exact h.exact_length _ (Opcode.fromByte_eq_some hknown) hopcodeByte

/-- Every payload of the grammar has a header to read. -/
theorem MarkerPayload.exists_marker {payload : Bytes} (h : MarkerPayload payload) (vout : UInt32) :
    ∃ marker : ParsedMarker, marker.payload = payload ∧ marker.vout = vout ∧
      parseScript (markerScript payload) vout = some (ok marker) := by
  have hlower := h.lower
  let marker : ParsedMarker :=
    ⟨vout,payload[4],payload[5],payload[6],Opcode.fromByte payload[6],payload⟩
  have hcomplete : parseScript (markerScript marker.payload) marker.vout = some (ok marker) :=
    parseScript_complete h (List.getElem?_eq_getElem _) (List.getElem?_eq_getElem _)
      (List.getElem?_eq_getElem _) rfl
  exact ⟨marker,rfl,rfl,hcomplete⟩

end Inversion

/-- A script is accepted exactly when it is the canonical push of a payload of the grammar;
the marker then holds this payload and its header bytes. Parsing inverts the encoder, and a
payload comes from one script only. -/
theorem parse_accepts_grammar (script : Bytes) (vout : UInt32) :
    (∀ marker, parseScript script vout = some (ok marker) ↔
      script = markerScript marker.payload ∧ MarkerPayload marker.payload ∧ marker.vout = vout ∧
      marker.payload[4]? = some marker.version ∧ marker.payload[5]? = some marker.network ∧
      marker.payload[6]? = some marker.opcodeByte ∧
      marker.opcode = Opcode.fromByte marker.opcodeByte) ∧
    ((∃ marker, parseScript script vout = some (ok marker)) ↔
      ∃ payload, script = markerScript payload ∧ MarkerPayload payload) ∧
    (∀ payload, MarkerPayload payload → ∃ marker : ParsedMarker, marker.payload = payload ∧
      marker.vout = vout ∧ parseScript (markerScript payload) vout = some (ok marker)) ∧
    ∀ other otherVout marker otherMarker, parseScript script vout = some (ok marker) →
      parseScript other otherVout = some (ok otherMarker) →
      marker.payload = otherMarker.payload → script = other := by
  refine ⟨?_,?_,?_,?_⟩
  · intro marker
    constructor
    · exact parseScript_sound
    · rintro ⟨rfl,hpayload,rfl,hversion,hnetwork,hopcodeByte,hopcode⟩
      exact parseScript_complete hpayload hversion hnetwork hopcodeByte hopcode
  · constructor
    · rintro ⟨marker,hmarker⟩
      obtain ⟨hscript,hpayload,_⟩ := parseScript_sound hmarker
      exact ⟨marker.payload,hscript,hpayload⟩
    · rintro ⟨payload,rfl,hpayload⟩
      obtain ⟨marker,_,_,hmarker⟩ := hpayload.exists_marker vout
      exact ⟨marker,hmarker⟩
  · intro payload hpayload
    exact hpayload.exists_marker vout
  · intro other otherVout marker otherMarker hmarker hother hsame
    rw [(parseScript_sound hmarker).1,(parseScript_sound hother).1,hsame]

/-- The payload of a CREATE. -/
def plainPayload : Bytes := magic ++ [1,3,1,1] ++ List.replicate 32 7

/-- The payload is read from its shortest push, and not from a push with a length byte. -/
theorem sample_grammar : ∃ marker, parseScript (markerScript plainPayload) 0 = some (ok marker) ∧
    marker.payload = plainPayload ∧ marker.version = 1 ∧ marker.network = 3 ∧ marker.opcode = some .create ∧
    ∀ vout other, other.payload = plainPayload →
      parseScript ([0x6a,0x4c,40] ++ plainPayload) vout ≠ some (ok other) := by
  obtain ⟨hreads,_,hparses,hdetermined⟩ := parse_accepts_grammar (markerScript plainPayload) 0
  obtain ⟨marker,hpayload,_,hmarker⟩ := hparses plainPayload ⟨rfl,by decide,by decide,by decide⟩
  obtain ⟨_,_,_,hversion,hnetwork,hopcodeByte,hopcode⟩ := (hreads marker).mp hmarker
  rw [hpayload] at hversion hnetwork hopcodeByte
  refine ⟨marker,hmarker,hpayload,?_,?_,?_,?_⟩
  · exact (Option.some.inj hversion).symm
  · exact (Option.some.inj hnetwork).symm
  · rw [hopcode,← Option.some.inj hopcodeByte]
    rfl
  · intro vout other hother hlong
    have hsame := hdetermined _ vout marker other hmarker hlong (hpayload.trans hother.symm)
    exact absurd hsame (by decide)

end TandemVerifier
