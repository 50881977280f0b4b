import NmosReference.Pep.Ipmx

open BigEndian CounterMode

-- A stream of encrypted RTP packets: the first counter travels whole, the later ones by their low 24 bits.
namespace Pep

-- What the two ends agreed on.
structure Session where
  key               : PrivacyKey
  ivPrime           : Nat
  mode              : PepMode
  isKv              : Bool
  extId             : Nat
  dynamicKeyVersion : Word

structure Packet where
  extension : Bytes
  payload   : Bytes
deriving DecidableEq

-- A packet, and the counter it was encrypted from.
structure Sent where
  ctr    : Nat
  packet : Packet
deriving DecidableEq

structure Received where
  ctr     : Nat
  payload : Bytes
  macOk   : Bool
deriving DecidableEq

namespace Session

variable (lib : Primitives) (s : Session)

def aad (aad : Bytes) : Bytes :=
  if modeHasAad s.mode then aad else []

def aadFull (e : FullExtension) : Bytes :=
  s.aad <| buildRtpAadFull e.dynamicKeyVersion e.ctrHigh e.ctrLow s.isKv

def aadShort (ctrShort : Nat) : Bytes :=
  s.aad <| buildRtpAadShort ctrShort

-- The first packet, and the counter for the next one.
def sendFull (ctr : Nat) (payload : Bytes) : Sent × Nat :=
  let aad := s.aadFull ⟨s.dynamicKeyVersion, lowWord (ctr >>> 32), lowWord ctr⟩
  let (encrypted, nextCtr) := encryptRtpPayload lib s.key payload s.ivPrime ctr s.mode aad
  (⟨ctr, buildRtpFullExtension s.extId ctr s.dynamicKeyVersion, encrypted⟩, nextCtr)

def sendShort (ctr : Nat) (payload : Bytes) : Sent × Nat :=
  let (encrypted, nextCtr) := encryptRtpPayload lib s.key payload s.ivPrime ctr s.mode (s.aadShort <| ctr % 2 ^ 24)
  (⟨ctr, buildRtpShortExtension s.extId ctr, encrypted⟩, nextCtr)

def sendRest : Nat → List Bytes → List Sent
  | _,   []                  => []
  | ctr, payload :: payloads =>
    let (sent, nextCtr) := s.sendShort lib ctr payload
    sent :: sendRest nextCtr payloads

def send (ctr : Nat) : List Bytes → List Sent
  | []                  => []
  | payload :: payloads =>
    let (sent, nextCtr) := s.sendFull lib ctr payload
    sent :: s.sendRest lib nextCtr payloads

def receiveFull (packet : Packet) : Except String Received := do
  let e ← parseRtpFullExtension packet.extension
  let ctr := recoverFullCtr e.ctrHigh e.ctrLow
  let (payload, macOk, _) := decryptRtpPayload lib s.key packet.payload s.ivPrime ctr s.mode (s.aadFull e)
  return ⟨ctr, payload, macOk⟩

-- The three octets of a short extension that hold the counter.
def ctrShort (extension : Bytes) : Nat :=
  decode <| extension.drop 5 |>.take 3

def receiveShort (prevCtr : Nat) (packet : Packet) : Received :=
  let ctr := recoverShortCtr prevCtr (ctrShort packet.extension)
  let aad := s.aadShort <| ctrShort packet.extension
  let (payload, macOk, _) := decryptRtpPayload lib s.key packet.payload s.ivPrime ctr s.mode aad
  ⟨ctr, payload, macOk⟩

def receiveRest : Nat → List Packet → List Received
  | _,       []                => []
  | prevCtr, packet :: packets =>
    let received := s.receiveShort lib prevCtr packet
    received :: receiveRest received.ctr packets

def receive : List Packet → Except String (List Received)
  | []                => .ok []
  | packet :: packets => do
    let received ← s.receiveFull lib packet
    return received :: s.receiveRest lib received.ctr packets

-- How many slices of the stream were enciphered.
def total (sent : List Sent) : Nat :=
  (sent.map fun p => slices p.packet.payload).sum

-- The counter blocks that enciphered them, in order.
def usedBlocks (sent : List Sent) : List Block :=
  sent.flatMap fun p => blocks (decode <| buildIvCtr s.ivPrime p.ctr .spec) (slices p.packet.payload)

variable {lib} {s} {ctr prevCtr : Nat} {payload : Bytes} {payloads : List Bytes}

theorem buildRtpShortExtension_eq : buildRtpShortExtension s.extId ctr =
    (extensionHeader 1 ++ encode 1 (idL s.extId 2)) ++ encode 3 (ctr % 2 ^ 24) := by
  have h (n : Nat) : encode 3 n = encode 1 (n >>> 16) ++ encode 1 (n >>> 8) ++ encode 1 n := by
    simp [encode, Nat.shiftRight_eq_div_pow, Nat.div_div_eq_div_mul]
  simp only [buildRtpShortExtension, h, List.append_assoc]

theorem ctrShort_buildRtpShortExtension : ctrShort (buildRtpShortExtension s.extId ctr) = ctr % 2 ^ 24 := by
  have hp : (extensionHeader 1 ++ encode 1 (idL s.extId 2)).length = 5 := by simp [extensionHeader]
  rw [ctrShort, buildRtpShortExtension_eq, ← hp, List.drop_left, List.take_of_length_le (by simp),
    decode_encode_of_lt (by omega)]

@[simp]
theorem slices_encryptRtpPayload {aad : Bytes} :
    slices (encryptRtpPayload lib s.key payload s.ivPrime ctr s.mode aad).1 =
      slices (toEncrypt lib s.key payload s.mode aad) := by
  simp [slices, encryptRtpPayload, pepEncryptSlices]

theorem snd_encryptRtpPayload {aad : Bytes} :
    (encryptRtpPayload lib s.key payload s.ivPrime ctr s.mode aad).2 =
      ctr + slices (encryptRtpPayload lib s.key payload s.ivPrime ctr s.mode aad).1 := by
  rw [slices_encryptRtpPayload]
  rfl

theorem snd_sendFull :
    (s.sendFull lib ctr payload).2 = ctr + slices (s.sendFull lib ctr payload).1.packet.payload :=
  snd_encryptRtpPayload

theorem snd_sendShort :
    (s.sendShort lib ctr payload).2 = ctr + slices (s.sendShort lib ctr payload).1.packet.payload :=
  snd_encryptRtpPayload

-- The counter moves on with every packet that another one follows.
theorem lt_snd_encryptRtpPayload {aad : Bytes}
    (h : modeHasCmac s.mode ∨ ∀ p ∈ (payload :: payloads).dropLast, p ≠ []) :
    payloads = [] ∨ ctr < (encryptRtpPayload lib s.key payload s.ivPrime ctr s.mode aad).2 := by
  cases payloads
  case nil => exact .inl rfl
  case cons =>
    have hp : 0 < slices (toEncrypt lib s.key payload s.mode aad) :=
      slices_toEncrypt_pos <| h.imp_right (· _ <| by simp)
    rw [snd_encryptRtpPayload, slices_encryptRtpPayload]
    exact .inr (by omega)

theorem snd_encryptRtpPayload_lt {aad : Bytes} (h : payload.length ≤ 65535) :
    (encryptRtpPayload lib s.key payload s.ivPrime ctr s.mode aad).2 < ctr + 2 ^ 24 := by
  have hs : slices (toEncrypt lib s.key payload s.mode aad) ≤ 4097 := slices_toEncrypt_le h
  rw [snd_encryptRtpPayload, slices_encryptRtpPayload]
  omega

theorem dropLast_tail (h : modeHasCmac s.mode ∨ ∀ p ∈ (payload :: payloads).dropLast, p ≠ []) :
    modeHasCmac s.mode ∨ ∀ p ∈ payloads.dropLast, p ≠ [] := by
  refine h.imp_right fun h p hp => h p ?_
  cases payloads
  case nil  => simp at hp
  case cons => exact List.mem_cons_of_mem _ hp

theorem receiveFull_sendFull (h : ctr < 2 ^ 64) :
    s.receiveFull lib (s.sendFull lib ctr payload).1.packet = .ok ⟨ctr, payload, true⟩ := by
  simp only [receiveFull, sendFull, parseRtpFullExtension_buildRtpFullExtension, recoverFullCtr_lowWord h,
    decryptRtpPayload_encryptRtpPayload, bind, Except.bind, pure, Except.pure]

theorem receiveShort_sendShort (hp : prevCtr < ctr) (hc : ctr < prevCtr + 2 ^ 24) :
    s.receiveShort lib prevCtr (s.sendShort lib ctr payload).1.packet = ⟨ctr, payload, true⟩ := by
  simp only [receiveShort, sendShort, ctrShort_buildRtpShortExtension, recoverShortCtr_eq hp hc,
    decryptRtpPayload_encryptRtpPayload]

-- After a packet that took no counter, the next one is looked for in the wrong place.
theorem ctr_receiveShort_same : (s.receiveShort lib ctr (s.sendShort lib ctr payload).1.packet).ctr =
    ctr + 2 ^ 24 := by
  simp only [receiveShort, sendShort, ctrShort_buildRtpShortExtension, recoverShortCtr_self]

theorem ctrs_receive_empty {received : List Received} (h : ctr < 2 ^ 64) (hm : modeHasCmac s.mode = false)
    (hr : s.receive lib ((s.send lib ctr [[], payload]).map Sent.packet) = .ok received) :
    received.map Received.ctr = [ctr, ctr + 2 ^ 24] := by
  have hn : (s.sendFull lib ctr []).2 = ctr := by
    rw [snd_sendFull, sendFull, slices_encryptRtpPayload, toEncrypt, hm]
    simp [slices]
  simp only [send, sendRest, hn, List.map_cons, List.map_nil, receive, receiveFull_sendFull h, receiveRest, bind,
    Except.bind, pure, Except.pure, Except.ok.injEq] at hr
  rw [← hr, List.map_cons, List.map_cons, ctr_receiveShort_same]
  rfl

-- Each payload, with the counter it was sent with.
def delivered (sent : List Sent) (payloads : List Bytes) : List Received :=
  (sent.zip payloads).map fun x => ⟨x.1.ctr, x.2, true⟩

theorem receiveRest_sendRest (hl : ∀ p ∈ payloads, p.length ≤ 65535)
    (he : modeHasCmac s.mode ∨ ∀ p ∈ payloads.dropLast, p ≠ [])
    (hp : payloads = [] ∨ prevCtr < ctr) (hc : ctr < prevCtr + 2 ^ 24) :
    s.receiveRest lib prevCtr ((s.sendRest lib ctr payloads).map Sent.packet) =
      delivered (s.sendRest lib ctr payloads) payloads := by
  induction payloads generalizing prevCtr ctr with
  | nil => rfl
  | cons payload payloads ih =>
    have ⟨hl₀, hl⟩ := List.forall_mem_cons.mp hl
    have hr : s.receiveShort lib prevCtr (s.sendShort lib ctr payload).1.packet = ⟨ctr, payload, true⟩ :=
      receiveShort_sendShort (hp.resolve_left (by simp)) hc
    simp only [sendRest, List.map_cons, receiveRest, hr, delivered, List.zip_cons_cons]
    exact congrArg _ <| ih hl (dropLast_tail he) (lt_snd_encryptRtpPayload he) (snd_encryptRtpPayload_lt hl₀)

theorem receive_send (h : ctr < 2 ^ 64) (hl : ∀ p ∈ payloads, p.length ≤ 65535)
    (he : modeHasCmac s.mode ∨ ∀ p ∈ payloads.dropLast, p ≠ []) :
    s.receive lib ((s.send lib ctr payloads).map Sent.packet) =
      .ok (delivered (s.send lib ctr payloads) payloads) := by
  cases payloads with
  | nil => rfl
  | cons payload payloads =>
    have ⟨hl₀, hl⟩ := List.forall_mem_cons.mp hl
    simp only [send, List.map_cons, receive, receiveFull_sendFull h, delivered, List.zip_cons_cons, bind,
      Except.bind, pure, Except.pure]
    exact congrArg (fun rs => Except.ok (_ :: rs)) <|
      receiveRest_sendRest hl (dropLast_tail he) (lt_snd_encryptRtpPayload he) (snd_encryptRtpPayload_lt hl₀)

theorem length_sendRest : (s.sendRest lib ctr payloads).length = payloads.length := by
  induction payloads generalizing ctr with
  | nil                     => rfl
  | cons payload payloads ih => simp [sendRest, ih]

theorem length_send : (s.send lib ctr payloads).length = payloads.length := by
  cases payloads <;> simp [send, length_sendRest]

-- The counter and the number of slices of each packet.
def spans (sent : List Sent) : List (Nat × Nat) :=
  sent.map fun p => (p.ctr, slices p.packet.payload)

-- Each packet goes on from the slice where the one before it ended.
def Consecutive : Nat → List (Nat × Nat) → Prop
  | _,   []         => True
  | ctr, (c, n) :: l => c = ctr ∧ Consecutive (ctr + n) l

theorem usedBlocks_eq {sent : List Sent} : s.usedBlocks sent =
    (spans sent).flatMap fun x => blocks (decode <| buildIvCtr s.ivPrime x.1 .spec) x.2 := by
  rw [spans, List.flatMap_map]
  rfl

-- What is authenticated beside the payload has no part in how long a packet is.
theorem spans_send : spans (s.send lib ctr payloads) = spans (s.sendRest lib ctr payloads) := by
  cases payloads with
  | nil => rfl
  | cons payload payloads =>
    have hs : slices (s.sendFull lib ctr payload).1.packet.payload =
        slices (s.sendShort lib ctr payload).1.packet.payload := by
      simp only [sendFull, sendShort, slices_encryptRtpPayload]
      simp only [slices, length_toEncrypt]
    have hn : (s.sendFull lib ctr payload).2 = (s.sendShort lib ctr payload).2 := by
      rw [snd_sendFull, snd_sendShort, hs]
    have hc : (s.sendFull lib ctr payload).1.ctr = (s.sendShort lib ctr payload).1.ctr := rfl
    simp only [send, sendRest, spans, List.map_cons, hs, hn, hc]

theorem consecutive_sendRest : Consecutive ctr (spans <| s.sendRest lib ctr payloads) := by
  induction payloads generalizing ctr with
  | nil                      => trivial
  | cons payload payloads ih => exact ⟨rfl, snd_sendShort ▸ ih⟩

theorem consecutive_send : Consecutive ctr (spans <| s.send lib ctr payloads) := by
  exact spans_send ▸ consecutive_sendRest

theorem usedBlocks_cons {p : Sent} {sent : List Sent} : s.usedBlocks (p :: sent) =
    blocks (decode <| buildIvCtr s.ivPrime p.ctr .spec) (slices p.packet.payload) ++ s.usedBlocks sent :=
  rfl

-- The low half of a block, which is the counter of its slice.
def low (b : Block) : Nat :=
  decode b.bytes % 2 ^ 64

theorem low_blocks {n : Nat} : (blocks (decode <| buildIvCtr s.ivPrime ctr .spec) n).map low =
    (List.range n).map fun i => (ctr + i) % 2 ^ 64 := by
  rw [blocks, List.map_map]
  refine List.map_congr_left fun i _ => ?_
  simp only [Function.comp, low, decode_block, decode_buildIvCtr]
  omega

-- The slices of the stream are counted without a gap, across the packets too.
theorem low_usedBlocks {sent : List Sent} (h : Consecutive ctr <| spans sent) :
    (s.usedBlocks sent).map low = (List.range <| total sent).map fun j => (ctr + j) % 2 ^ 64 := by
  induction sent generalizing ctr with
  | nil => rfl
  | cons p sent ih =>
    have ⟨(hc : p.ctr = ctr), h⟩ := h
    have ht : total (p :: sent) = slices p.packet.payload + total sent := rfl
    rw [usedBlocks_cons, List.map_append, low_blocks, ih h, ht, List.range_add, List.map_append, List.map_map, hc]
    simp only [Function.comp_def, Nat.add_assoc]

-- A counter comes back only after 2 ^ 64 slices.
theorem usedBlocks_nodup {sent : List Sent} (h : Consecutive ctr <| spans sent) (ht : total sent ≤ 2 ^ 64) :
    (s.usedBlocks sent).Nodup := by
  refine List.Nodup.of_map low ?_
  rw [low_usedBlocks h]
  refine List.nodup_range.map_on fun i hi j hj e => ?_
  rw [List.mem_range] at hi hj
  omega

theorem encrypted_stream_received (lib : Primitives) (s : Session) (ctr : Nat) (payloads : List Bytes)
    (hc : ctr < 2 ^ 64) (hl : ∀ p ∈ payloads, p.length ≤ 65535) :
    (modeHasCmac s.mode ∨ (∀ p ∈ payloads.dropLast, p ≠ []) →
      ∃ received, s.receive lib ((s.send lib ctr payloads).map Sent.packet) = .ok received ∧
        received.map (·.ctr % 2 ^ 64) = (s.send lib ctr payloads).map (·.ctr % 2 ^ 64) ∧
        received.map Received.payload = payloads ∧ ∀ r ∈ received, r.macOk) ∧
    (total (s.send lib ctr payloads) ≤ 2 ^ 64 → (s.usedBlocks <| s.send lib ctr payloads).Nodup) := by
  refine ⟨fun he => ⟨_, receive_send hc hl he, ?counters, ?payloads, ?macs⟩, usedBlocks_nodup consecutive_send⟩
  case counters =>
    have hf : ((s.send lib ctr payloads).zip payloads).map Prod.fst = s.send lib ctr payloads :=
      List.map_fst_zip (Nat.le_of_eq length_send)
    conv => rhs; rw [← hf]
    simp only [delivered, List.map_map]
    rfl
  case payloads =>
    simp only [delivered, List.map_map]
    exact List.map_snd_zip (Nat.le_of_eq length_send.symm)
  case macs =>
    intro r hr
    obtain ⟨_, _, rfl⟩ := List.mem_map.mp hr
    rfl

-- A packet of one slice, in a mode without tags, takes one counter.
theorem usedBlocks_sendRest_replicate {n : Nat} {b : UInt8} (h : modeHasCmac s.mode = false) :
    s.usedBlocks (s.sendRest lib ctr <| List.replicate n [b]) =
      (List.range n).map fun j => block (s.ivPrime % 2 ^ 64 * 2 ^ 64 + (ctr + j) % 2 ^ 64) := by
  induction n generalizing ctr with
  | zero => rfl
  | succ n ih =>
    have hs : slices (s.sendShort lib ctr [b]).1.packet.payload = 1 := by
      rw [sendShort, slices_encryptRtpPayload, toEncrypt, h]
      simp [slices]
    have hr : s.sendRest lib ctr (List.replicate (n + 1) [b]) =
        (s.sendShort lib ctr [b]).1 :: s.sendRest lib (ctr + 1) (List.replicate n [b]) := by
      have hn : (s.sendShort lib ctr [b]).2 = ctr + 1 := hs ▸ snd_sendShort
      rw [← hn]
      rfl
    have hc : (s.sendShort lib ctr [b]).1.ctr = ctr := rfl
    rw [hr, usedBlocks_cons, hs, hc, ih, List.range_succ_eq_map, List.map_cons, List.map_map]
    simp [blocks, decode_buildIvCtr, Function.comp_def, Nat.add_comm 1, Nat.add_assoc]

theorem usedBlocks_send_replicate {n : Nat} {b : UInt8} (h : modeHasCmac s.mode = false) :
    s.usedBlocks (s.send lib ctr <| List.replicate n [b]) =
      (List.range n).map fun j => block (s.ivPrime % 2 ^ 64 * 2 ^ 64 + (ctr + j) % 2 ^ 64) := by
  rw [← usedBlocks_sendRest_replicate h, usedBlocks_eq, usedBlocks_eq, spans_send]

-- A stream of one-octet packets uses a block again as soon as it is longer than the counter counts.
theorem usedBlocks_replicate_not_nodup {b : UInt8} (h : modeHasCmac s.mode = false) :
    ¬ (s.usedBlocks <| s.send lib ctr <| List.replicate (2 ^ 64 + 1) [b]).Nodup := by
  rw [usedBlocks_send_replicate h]
  intro hn
  have hb (j : Nat) (hj : j ≤ 2 ^ 64) : j ∈ List.range (2 ^ 64 + 1) := List.mem_range.mpr (Nat.lt_succ_of_le hj)
  have he : (0 : Nat) = 2 ^ 64 := by
    refine List.inj_on_of_nodup_map hn (hb 0 (Nat.zero_le _)) (hb (2 ^ 64) (Nat.le_refl _)) ?_
    simp only [Nat.add_zero, Nat.add_mod_right]
  omega

end Session

-- A cipher and a code that are simple enough to compute with.
namespace Toy

open Session

def lib : Primitives where
  aes  := fun _ b => b
  cmac := fun _ bs => block bs.length

def session (mode : PepMode) : Session where
  key               := ⟨List.replicate 16 0, .inl rfl⟩
  ivPrime           := 7
  mode              := mode
  isKv              := false
  extId             := 1
  dynamicKeyVersion := 0

-- The counter after an empty packet is not recovered, and a long stream uses a block twice.
theorem counters_lost_and_reused :
    (¬ ∃ received,
      (session .aes128Ctr).receive lib (((session .aes128Ctr).send lib 0 [[], [1]]).map Sent.packet) = .ok received ∧
        received.map (·.ctr % 2 ^ 64) = ((session .aes128Ctr).send lib 0 [[], [1]]).map (·.ctr % 2 ^ 64)) ∧
    ¬ ((session .aes128Ctr).usedBlocks <| (session .aes128Ctr).send lib 0 <| List.replicate (2 ^ 64 + 1) [1]).Nodup := by
  constructor
  case left =>
    rintro ⟨received, hr, hc⟩
    have hs : ((session .aes128Ctr).send lib 0 [[], [1]]).map (·.ctr % 2 ^ 64) = [0, 0] := rfl
    have hm : received.map (·.ctr % 2 ^ 64) = (received.map Received.ctr).map (· % 2 ^ 64) := by
      rw [List.map_map]
      rfl
    rw [hs, hm, ctrs_receive_empty (by decide) rfl hr] at hc
    simp at hc
  case right =>
    exact usedBlocks_replicate_not_nodup rfl

-- Empty packets carry a tag here, and the counter wraps within the stream.
theorem tagged_stream_received :
    (∃ received, (session .aes256CtrCmac64Aad).receive lib
        (((session .aes256CtrCmac64Aad).send lib (2 ^ 64 - 1) [[], [1, 2], []]).map Sent.packet) = .ok received ∧
      received.map (·.ctr % 2 ^ 64) =
        ((session .aes256CtrCmac64Aad).send lib (2 ^ 64 - 1) [[], [1, 2], []]).map (·.ctr % 2 ^ 64) ∧
      received.map Received.payload = [[], [1, 2], []] ∧ ∀ r ∈ received, r.macOk) ∧
    ((session .aes256CtrCmac64Aad).usedBlocks <|
      (session .aes256CtrCmac64Aad).send lib (2 ^ 64 - 1) [[], [1, 2], []]).Nodup := by
  have ⟨hr, hb⟩ := encrypted_stream_received lib (session .aes256CtrCmac64Aad) (2 ^ 64 - 1) [[], [1, 2], []]
    (by decide) (by decide)
  exact ⟨hr (.inl rfl), hb (by decide +kernel)⟩

end Toy

end Pep
