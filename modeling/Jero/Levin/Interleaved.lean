import Jero.Levin.Accepts

namespace Jero.Levin
open Jero.Common Jero.Serial List Framing MessageWriter
variable {later : Framing} {size : Nat} {flags : UInt32} {packet : Bytes}

inductive Interleaved (noiseSize : Nat) : Bytes → Bytes → Prop
  | done : Interleaved noiseSize [] []
  | noise {output stream packet : Bytes} {noiseBytes : Nat} (hbytes : noiseBytes < 2 ^ 64)
      (hpacket : makeNoiseNotify noiseBytes = some packet)
      (hrest : Interleaved noiseSize output stream) :
      Interleaved noiseSize output (packet ++ stream)
  | slice {output stream packet : Bytes} (hpacket : packet.length = noiseSize)
      (hrest : Interleaved noiseSize output stream) :
      Interleaved noiseSize (packet ++ output) (packet ++ stream)

def delivered (noiseSize : Nat) (message : MessageWriter) : Bytes :=
  if message.buffer.length ≤ noiseSize then
    message.payload ++ List.replicate (noiseSize - message.buffer.length) 0
  else message.payload

variable {Sized : UInt32 → Nat → Prop} {framing : Framing}

theorem makeHeader_cb (hsize : size < 2 ^ 64) (command flags : UInt32) (expectResponse : Bool) :
    (makeHeader command size flags expectResponse).cb.toNat = size :=
  UInt64.toNat_ofNat_of_lt' hsize

variable {command : UInt32}

theorem isResponse_makeHeader (hflags : flags &&& levinPacketResponse = 0)
      (hhead : later.currentHead = makeHeader command size flags false) :
    later.isResponse = false := by
  rw [isResponse, hhead]
  dsimp only [makeHeader]
  rw [hflags, bne_self_eq_false, Bool.and_false]

variable {out : Option Message} {data : Bytes}

theorem makeHeader_tame (hsize : size < 2 ^ 64) (hsized : Sized command size)
    (hflags : flags &&& levinPacketResponse = 0)
    (hhead : later.currentHead = makeHeader command size flags false)
    (hout : ∀ message ∈ out, message.purpose = .notify) : Tame Sized later out := by
  refine ⟨isResponse_makeHeader hflags hhead, ?_, hout⟩
  rw [hhead, makeHeader_cb hsize]
  exact hsized

theorem tame_none : ∀ message ∈ (none : Option Message), message.purpose = .notify := by
  intro message hmessage
  cases hmessage

def Framing.closed (framing : Framing) (head : BucketHead) (fragmentBuffer : Bytes) : Framing :=
  { framing.opened head with state := .head, fragmentBuffer := fragmentBuffer }

theorem carve_opened (framing : Framing) (head : BucketHead) (body : Bytes) :
    (framing.opened head).carve body =
      if head.flags &&& (levinPacketRequest ||| levinPacketResponse) = 0 then
        if head.flags &&& (levinPacketBegin ||| levinPacketEnd) =
            levinPacketBegin ||| levinPacketEnd then
          .skip (framing.closed head framing.fragmentBuffer)
        else if head.flags &&& levinPacketEnd = 0 then
          .skip (framing.closed head
            ((if head.flags &&& levinPacketBegin ≠ 0 then [] else framing.fragmentBuffer) ++ body))
        else
          (framing.closed head framing.fragmentBuffer).joinFragments
            ((if head.flags &&& levinPacketBegin ≠ 0 then [] else framing.fragmentBuffer) ++ body)
      else .whole (framing.closed head framing.fragmentBuffer) body :=
  rfl

section
variable {head : BucketHead} (body : Bytes)

theorem carve_noise (hflags : head.flags = levinPacketBegin ||| levinPacketEnd) :
    (framing.opened head).carve body = .skip (framing.closed head framing.fragmentBuffer) := by
  rw [carve_opened, hflags, if_pos (by decide), if_pos (by decide)]

theorem carve_begin (hflags : head.flags = levinPacketBegin) :
    (framing.opened head).carve body = .skip (framing.closed head body) := by
  rw [carve_opened, hflags, if_pos (by decide), if_neg (by decide), if_pos (by decide),
    if_pos (by decide), nil_append]

theorem carve_middle (hflags : head.flags = 0) :
    (framing.opened head).carve body =
      .skip (framing.closed head (framing.fragmentBuffer ++ body)) := by
  rw [carve_opened, hflags, if_pos (by decide), if_neg (by decide), if_pos (by decide),
    if_neg (by decide)]

theorem carve_end (hflags : head.flags = levinPacketEnd) :
    (framing.opened head).carve body =
      (framing.closed head framing.fragmentBuffer).joinFragments
        (framing.fragmentBuffer ++ body) := by
  rw [carve_opened, hflags, if_pos (by decide), if_neg (by decide), if_neg (by decide),
    if_neg (by decide)]

theorem carve_request (hflags : head.flags = levinPacketRequest) :
    (framing.opened head).carve body =
      .whole (framing.closed head framing.fragmentBuffer) body := by
  rw [carve_opened, hflags, if_neg (by decide)]

end

def requestPacket (command : UInt32) (payload : Bytes) : Bytes :=
  (makeHeader command payload.length levinPacketRequest false).bytes ++ payload

theorem joinFragments_whole {payload : Bytes}
    (hpayload : payload.length < 2 ^ 64) (padding : Bytes) :
    framing.joinFragments (requestPacket command payload ++ padding) =
      .joined { framing with
        currentHead := makeHeader command payload.length levinPacketRequest false
        fragmentBuffer := [] } payload := by
  have hlong := not_short_append
    (le_of_eq (makeHeader command payload.length levinPacketRequest false).length_bytes.symm)
    (payload ++ padding)
  have hsize := makeHeader_cb hpayload command levinPacketRequest false
  rw [requestPacket, append_assoc, joinFragments, if_neg hlong, BucketHead.read_bytes,
    drop_left' (BucketHead.length_bytes _)]
  dsimp only
  rw [hsize, if_neg (by rw [length_append]; omega), take_left]

variable {body : Bytes} {head : BucketHead}

theorem step_packet (hbody : body.length = head.cb.toNat) (rest : Bytes) :
    framer.step (framing.opened head) (body ++ rest) =
      ((framing.opened head).carve body).advance rest := by
  have hready : (framing.opened head).currentHead.cb.toNat ≤ body.length := le_of_eq hbody.symm
  have htake : body.take (framing.opened head).currentHead.cb.toNat = body :=
    take_of_length_le (le_of_eq hbody)
  have hdrop : body.drop (framing.opened head).currentHead.cb.toNat = [] :=
    drop_eq_nil_of_le (le_of_eq hbody)
  rw [framer_body rfl, stepBody_append hready, htake, hdrop, nil_append]

def Reads (Sized : UInt32 → Nat → Prop) (framing : Framing) (stream : Bytes)
    (messages : List Message) (rest : Bytes) : Prop :=
  ∃ later, framer.Runs (Tame Sized) framing stream messages later rest ∧ later.state = .head

section
variable (hstate : framing.state = .head)
include hstate

theorem step_header
    (hsignature : head.signature = levinSignature) (rest : Bytes) :
    framer.step framing (head.bytes ++ rest) = .next (framing.opened head) rest none := by
  have hlong := not_short_append (le_of_eq head.length_bytes.symm) rest
  rw [framer_head hstate, stepHead, if_neg hlong, head.read_bytes,
    if_neg (not_not.mpr hsignature), drop_left' head.length_bytes]

theorem packet_runs
    (hsignature : head.signature = levinSignature) (hbody : body.length = head.cb.toNat)
    (hopened : Tame Sized (framing.opened head) none)
    (hcarve : ∀ rest, ((framing.opened head).carve body).advance rest = .next later rest out)
    (htame : Tame Sized later out) (rest : Bytes) :
    framer.Runs (Tame Sized) framing (head.bytes ++ body ++ rest) out.toList later rest := by
  have hrun := (Framer.Runs.single (step_header hstate hsignature (body ++ rest)) hopened).trans
    (.single ((step_packet hbody rest).trans (hcarve rest)) htame)
  rwa [← append_assoc] at hrun

theorem skipped_runs (hsize : size < 2 ^ 64) (hbody : body.length = size) (hsized : Sized 0 size)
    (hflags : flags &&& levinPacketResponse = 0) {buffer : Bytes}
    (hcarve : (framing.opened (makeHeader 0 size flags false)).carve body =
      .skip (framing.closed (makeHeader 0 size flags false) buffer)) (rest : Bytes) :
    ∃ later, framer.Runs (Tame Sized) framing (fragment size flags body ++ rest) [] later rest ∧
      later.state = .head ∧ later.fragmentBuffer = buffer := by
  have hadvance : ∀ rest,
      ((framing.opened (makeHeader 0 size flags false)).carve body).advance rest =
        .next (framing.closed (makeHeader 0 size flags false) buffer) rest none := by
    intro rest
    rw [hcarve]
    rfl
  have hbodySize := hbody.trans (makeHeader_cb hsize 0 flags false).symm
  exact ⟨_, packet_runs hstate rfl hbodySize (makeHeader_tame hsize hsized hflags rfl tame_none)
    hadvance (makeHeader_tame hsize hsized hflags rfl tame_none) rest, rfl, rfl⟩

theorem noise_runs {noiseBytes : Nat} (hbytes : noiseBytes < 2 ^ 64)
    (hpacket : makeNoiseNotify noiseBytes = some packet)
    (hsized : ∀ size ≤ packet.length, Sized 0 size) (rest : Bytes) :
    ∃ later, framer.Runs (Tame Sized) framing (packet ++ rest) [] later rest ∧
      later.state = .head ∧ later.fragmentBuffer = framing.fragmentBuffer := by
  rw [makeNoiseNotify] at hpacket
  split at hpacket
  · cases hpacket
  · cases hpacket
    refine skipped_runs hstate (lt_of_le_of_lt (Nat.sub_le _ _) hbytes)
      length_replicate (hsized _ ?_) rfl (carve_noise _ rfl) rest
    rw [length_append, length_replicate]
    exact Nat.le_add_left _ _

variable {command : UInt32} {payload : Bytes} (hpayload : payload.length < 2 ^ 64)
  (hdelivered : Sized command payload.length) (rest : Bytes)
include hpayload hdelivered

theorem dispatched_runs {outer : UInt32} (hsize : size < 2 ^ 64)
    (hbody : body.length = size) (hsized : Sized outer size)
    (hflags : flags &&& levinPacketResponse = 0)
    (hhead : later.currentHead = makeHeader command payload.length levinPacketRequest false)
    (hcarve : ∀ rest, ((framing.opened (makeHeader outer size flags false)).carve body).advance
      rest = .next later rest (some (later.message payload))) :
    framer.Runs (Tame Sized) framing
      ((makeHeader outer size flags false).bytes ++ body ++ rest)
      [⟨command, payload, .notify⟩] later rest := by
  have hpurpose : later.purpose = .notify := by
    rw [purpose, isResponse_makeHeader rfl hhead, hhead]
    rfl
  have hmessage : later.message payload = ⟨command, payload, .notify⟩ := by
    rw [message, hhead, hpurpose]
    rfl
  rw [hmessage] at hcarve
  have hnotify : ∀ message ∈ some (Message.mk command payload .notify),
      message.purpose = .notify := by
    intro message hsome
    cases hsome
    rfl
  exact packet_runs hstate rfl (hbody.trans (makeHeader_cb hsize outer flags false).symm)
    (makeHeader_tame hsize hsized hflags rfl tame_none) hcarve
    (makeHeader_tame hpayload hdelivered rfl hhead hnotify) rest

end

def Room (Sized : UInt32 → Nat → Prop) (stream : Bytes) : Prop :=
  ∀ size ≤ stream.length, Sized 0 size

variable {stream : Bytes}

theorem Room.left (h : Room Sized (packet ++ stream)) : Room Sized packet := by
  intro size hsize
  refine h size (hsize.trans ?_)
  rw [length_append]
  exact Nat.le_add_right _ _

theorem Room.right (h : Room Sized (packet ++ stream)) : Room Sized stream := by
  intro size hsize
  refine h size (hsize.trans ?_)
  rw [length_append]
  exact Nat.le_add_left _ _

theorem Room.space {payloadSpace : Nat} (h : Room Sized packet)
    (hpacket : packet.length = headSize + payloadSpace) : Sized 0 payloadSpace := by
  refine h payloadSpace ?_
  rw [hpacket]
  exact Nat.le_add_left _ _

variable {noiseSize : Nat}

theorem quiet_runs {output : Bytes} (hnoise : 0 < noiseSize)
    (h : Interleaved noiseSize output stream) (houtput : output = [])
    (hstate : framing.state = .head) (hroom : Room Sized stream) :
    Reads Sized framing stream [] [] := by
  induction h generalizing framing with
  | done => exact ⟨framing, .refl framing [], hstate⟩
  | noise hbytes hpacket _ ih =>
    obtain ⟨middle, hnoisy, hmiddle, -⟩ := noise_runs hstate hbytes hpacket hroom.left _
    obtain ⟨later, hrest, hlater⟩ := ih houtput hmiddle hroom.right
    exact ⟨later, hnoisy.trans hrest, hlater⟩
  | slice hpacket _ _ =>
    have hnil := (append_eq_nil_iff.mp houtput).1
    rw [hnil, length_nil] at hpacket
    omega

theorem noise_before {output others : Bytes} (hnoise : 0 < noiseSize)
    (h : Interleaved noiseSize output stream) (houtput : output = packet ++ others)
    (hpacket : packet.length = noiseSize) (hstate : framing.state = .head)
    (hroom : Room Sized stream) :
    ∃ middle after, framer.Runs (Tame Sized) framing stream [] middle (packet ++ after) ∧
      Interleaved noiseSize others after ∧ middle.state = .head ∧
      middle.fragmentBuffer = framing.fragmentBuffer ∧ Room Sized (packet ++ after) := by
  induction h generalizing framing with
  | done =>
    have hnil := (append_eq_nil_iff.mp houtput.symm).1
    rw [hnil, length_nil] at hpacket
    omega
  | noise hbytes hnoisy _ ih =>
    obtain ⟨next, hfirst, hnext, hkept⟩ := noise_runs hstate hbytes hnoisy hroom.left _
    obtain ⟨middle, after, hrest, hothers, hmiddle, hbuffer, hafter⟩ :=
      ih houtput hnext hroom.right
    exact ⟨middle, after, hfirst.trans hrest, hothers, hmiddle, hbuffer.trans hkept, hafter⟩
  | slice hslice hinner _ =>
    obtain ⟨rfl, rfl⟩ := append_inj houtput (hslice.trans hpacket.symm)
    exact ⟨framing, _, .refl framing _, hinner, hstate, rfl, hroom⟩

theorem last_packet_runs {message : Message}
    (hnoise : 0 < noiseSize) (h : Interleaved noiseSize packet stream)
    (hpacket : packet.length = noiseSize) (hstate : framing.state = .head)
    (hroom : Room Sized stream) (hreads : ∀ start after, start.state = .head →
      start.fragmentBuffer = framing.fragmentBuffer → Room Sized packet →
      Reads Sized start (packet ++ after) [message] after) :
    Reads Sized framing stream [message] [] := by
  obtain ⟨start, after, hnoisy, hquiet, hstart, hkept, hafter⟩ :=
    noise_before hnoise h (append_nil packet).symm hpacket hstate hroom
  obtain ⟨middle, hfirst, hmiddle⟩ := hreads start after hstart hkept hafter.left
  obtain ⟨later, hrest, hlater⟩ := quiet_runs hnoise hquiet rfl hmiddle hafter.right
  exact ⟨later, hnoisy.trans (hfirst.trans hrest), hlater⟩

section
variable {payloadSpace : Nat} {output stream : Bytes} {command : UInt32} {payload : Bytes}

theorem fragments_runs (hspace : payloadSpace < 2 ^ 64)
    (h : Interleaved (headSize + payloadSpace) output stream) (hpayload : payload.length < 2 ^ 64)
    (hdelivered : Sized command payload.length) {fuel : Nat}
    (houtput : output = fragments payloadSpace fuel data) (hdata : data ≠ [])
    (hfuel : data.length ≤ fuel * payloadSpace) (hstate : framing.state = .head)
    (hjoined : framing.fragmentBuffer ++ data = requestPacket command payload)
    (hroom : Room Sized stream) : Reads Sized framing stream [⟨command, payload, .notify⟩] [] := by
  have hpositive : 0 < headSize + payloadSpace := Nat.add_pos_left (by decide) payloadSpace
  induction fuel generalizing framing data output stream with
  | zero =>
    rw [Nat.zero_mul, Nat.le_zero, length_eq_zero_iff] at hfuel
    exact absurd hfuel hdata
  | succ fuel ih =>
    rw [fragments] at houtput
    split at houtput
    · next hlast =>
      have hpadded : (data ++ replicate (payloadSpace - data.length) 0).length =
          payloadSpace := by
        rw [length_append, length_replicate, Nat.add_sub_cancel' hlast]
      have hpacket : (fragment payloadSpace levinPacketEnd
          (data ++ replicate (payloadSpace - data.length) 0)).length =
          headSize + payloadSpace := by
        rw [length_fragment, hpadded]
      subst houtput
      refine last_packet_runs hpositive h hpacket hstate hroom ?_
      intro start after hstart hkept hspaced
      have hwhole : start.fragmentBuffer ++
          (data ++ replicate (payloadSpace - data.length) 0) =
          requestPacket command payload ++ replicate (payloadSpace - data.length) 0 := by
        rw [hkept, ← append_assoc, hjoined]
      have hcarve : (start.opened (makeHeader 0 payloadSpace levinPacketEnd false)).carve (data ++
        replicate (payloadSpace - length data) 0) =
          _ := carve_end (data ++ replicate (payloadSpace - length data) 0) rfl
      rw [hwhole, joinFragments_whole hpayload (replicate (payloadSpace - length data) 0)] at hcarve
      exact ⟨_, dispatched_runs hstart hpayload hdelivered after hspace hpadded (hspaced.space
        hpacket) rfl rfl
        (fun after => by rw [hcarve]; rfl), rfl⟩
    · next hmore =>
      rw [not_le] at hmore
      have hcopied : (data.take payloadSpace).length = payloadSpace := by
        rw [length_take, min_eq_left (le_of_lt hmore)]
      have hpacket : (fragment payloadSpace 0 (data.take payloadSpace)).length =
          headSize + payloadSpace := by
        rw [length_fragment, hcopied]
      obtain ⟨start, after, hnoisy, hothers, hstart, hkept, hafter⟩ :=
        noise_before hpositive h houtput hpacket hstate hroom
      obtain ⟨middle, hfirst, hmiddle, hbuffer⟩ := skipped_runs hstart hspace hcopied
        (hafter.left.space hpacket) rfl (carve_middle _ rfl) after
      have hcontinued : middle.fragmentBuffer ++ data.drop payloadSpace =
          requestPacket command payload := by
        rw [hbuffer, hkept, append_assoc, take_append_drop, hjoined]
      have hleft : data.drop payloadSpace ≠ [] := by
        rw [← length_pos_iff, length_drop]
        omega
      have hless : (data.drop payloadSpace).length ≤ fuel * payloadSpace := by
        rw [add_one_mul] at hfuel
        rw [length_drop]
        omega
      obtain ⟨later, hrest, hlater⟩ :=
        ih hothers rfl hleft hless hmiddle hcontinued hafter.right
      exact ⟨later, hnoisy.trans (hfirst.trans hrest), hlater⟩

end
variable {noiseSize : Nat} {command : UInt32} {message : MessageWriter} {output stream : Bytes}

theorem framer_idle (hstate : framing.state = .head) : framer.step framing [] = .wait := by
  rw [framer_head hstate]
  rfl

variable (hnoise : headSize * 2 ≤ noiseSize)
  (houtput : makeFragmentedNotify noiseSize command message = some output)
  (h : Interleaved noiseSize output stream) (hstate : framing.state = .head)
  (hroom : Room Sized stream) (hdelivered : Sized command (delivered noiseSize message).length)
include hnoise houtput h hstate hroom hdelivered

theorem whole_runs (hword : noiseSize < 2 ^ 64) (hfits : message.buffer.length ≤ noiseSize) :
    Reads Sized framing stream [⟨command, delivered noiseSize message, .notify⟩] [] := by
  have hpositive : 0 < noiseSize := lt_of_lt_of_le (by decide) hnoise
  rw [makeFragmentedNotify_whole hnoise hfits] at houtput
  have hpadded : (message.put
      (replicate (noiseSize - message.buffer.length) 0)).payload =
      delivered noiseSize message := by
    rw [payload_put, delivered, if_pos hfits]
  have hlength : output.length = noiseSize := by
    rw [← Option.some.inj houtput, length_finalizeNotify, put,
      length_append, length_replicate, Nat.add_sub_cancel' hfits]
  have hbytes : output = requestPacket command (delivered noiseSize message) := by
    rw [← Option.some.inj houtput, finalizeNotify_eq, ← length_payload, hpadded, requestPacket]
  have hsmall : (delivered noiseSize message).length < 2 ^ 64 := by
    have hparts := congrArg length hbytes
    rw [hlength, requestPacket, length_append] at hparts
    omega
  refine last_packet_runs hpositive h hlength hstate hroom ?_
  intro start after hstart _ _
  rw [hbytes]
  exact ⟨_, dispatched_runs hstart hsmall hdelivered after hsmall rfl hdelivered rfl rfl
    (fun after => by rw [carve_request (delivered noiseSize message) rfl]; rfl), rfl⟩

theorem split_runs (hword : message.buffer.length < 2 ^ 64)
    (hlong : noiseSize < message.buffer.length) :
    Reads Sized framing stream [⟨command, delivered noiseSize message, .notify⟩] [] := by
  have hpositive : 0 < noiseSize := lt_of_lt_of_le (by decide) hnoise
  have hpayload : delivered noiseSize message = message.payload :=
    if_neg (not_le.mpr hlong)
  rw [hpayload] at hdelivered ⊢
  rw [makeFragmentedNotify_split hnoise hlong, Option.some.injEq] at houtput
  have hwhole := message.length_finalizeNotify command
  have hsize : headSize + (noiseSize - headSize) = noiseSize := by omega
  have hspace : 1 ≤ noiseSize - headSize := by
    rw [headSize] at hnoise ⊢
    omega
  have hcopied : ((message.finalizeNotify command).take (noiseSize - headSize)).length =
      noiseSize - headSize := by
    rw [length_take, hwhole]
    omega
  have hpacket : (fragment (noiseSize - headSize) levinPacketBegin
      ((message.finalizeNotify command).take (noiseSize - headSize))).length = noiseSize := by
    rw [length_fragment, hcopied, hsize]
  obtain ⟨start, after, hnoisy, hothers, hstart, -, hafter⟩ :=
    noise_before hpositive h houtput.symm hpacket hstate hroom
  obtain ⟨middle, hfirst, hmiddle, hbuffer⟩ := skipped_runs hstart (by omega) hcopied
    (hafter.left.space (hpacket.trans hsize.symm)) rfl (carve_begin _ rfl) after
  have hleft : (message.finalizeNotify command).drop (noiseSize - headSize) ≠ [] := by
    rw [← length_pos_iff, length_drop, hwhole]
    omega
  have hfuel : ((message.finalizeNotify command).drop (noiseSize - headSize)).length ≤
      (message.finalizeNotify command).length * (noiseSize - headSize) := by
    rw [length_drop]
    exact (Nat.sub_le _ _).trans (Nat.le_mul_of_pos_right _ hspace)
  have hjoined : middle.fragmentBuffer ++
      (message.finalizeNotify command).drop (noiseSize - headSize) =
      requestPacket command message.payload := by
    rw [hbuffer, take_append_drop, finalizeNotify_eq, requestPacket, length_payload]
  have hsmall : message.payload.length < 2 ^ 64 := by
    rw [length_payload, payloadSize]
    omega
  obtain ⟨later, hrest, hlater⟩ := fragments_runs (by omega) (by rw [hsize]; exact hothers) hsmall
    hdelivered rfl hleft hfuel hmiddle hjoined hafter.right
  exact ⟨later, hnoisy.trans (hfirst.trans hrest), hlater⟩

theorem notify_completes (hword : noiseSize < 2 ^ 64) (hmessage : message.buffer.length < 2 ^ 64) :
    ∃ later, framer.Completes (Tame Sized) framing stream
      [⟨command, delivered noiseSize message, .notify⟩] later [] := by
  rcases lt_or_ge noiseSize message.buffer.length with hlong | hfits
  · obtain ⟨later, hruns, hlater⟩ :=
      split_runs hnoise houtput h hstate hroom hdelivered hmessage hlong
    exact ⟨later, hruns, framer_idle hlater⟩
  · obtain ⟨later, hruns, hlater⟩ :=
      whole_runs hnoise houtput h hstate hroom hdelivered hword hfits
    exact ⟨later, hruns, framer_idle hlater⟩

end Jero.Levin
