import Jero.Levin.Receive
import Jero.Serial.Framer

namespace Jero.Levin
open Jero.Common Jero.Machine Jero.Serial List Option BucketHead Framing
variable {framing : Framing} {cache rest : Bytes} {out : Option Message} {events : List Event}
namespace Carved

def advance (rest : Bytes) : Carved → Advance Framing UInt8 Message
  | .skip framing => .next framing rest none
  | .broken _ => .reject
  | .whole framing payload => .next framing rest (some (framing.message payload))
  | .joined framing payload => .next framing rest (some (framing.message payload))

variable {carved : Carved}

theorem advance_next_append (h : carved.advance cache = .next framing rest out) (more : Bytes) :
    carved.advance (cache ++ more) = .next framing (rest ++ more) out := by
  cases carved with
  | skip f =>
    cases h
    rfl
  | broken f => cases h
  | whole f payload =>
    cases h
    rfl
  | joined f payload =>
    cases h
    rfl

theorem advance_reject (h : carved.advance cache = .reject) (other : Bytes) :
    carved.advance other = .reject := by
  cases carved with
  | skip f => cases h
  | broken f => rfl
  | whole f payload => cases h
  | joined f payload => cases h

end Carved
namespace Framing

def opened (framing : Framing) (head : BucketHead) : Framing :=
  ⟨.body, head, head.protocolVersion, framing.fragmentBuffer⟩

def stepHead (framing : Framing) (cache : Bytes) : Advance Framing UInt8 Message :=
  if cache.length < headSize then
    if 8 ≤ cache.length ∧ UInt64.ofNat (littleEndian (cache.take 8)) ≠ levinSignature then .reject
    else .wait
  else if (BucketHead.read cache).signature ≠ levinSignature then .reject
  else .next (framing.opened (BucketHead.read cache)) (cache.drop headSize) none

def stepBody (framing : Framing) (cache : Bytes) : Advance Framing UInt8 Message :=
  let size := framing.currentHead.cb.toNat
  if cache.length < size then .wait
  else (framing.carve (cache.take size)).advance (cache.drop size)

def step (framing : Framing) (cache : Bytes) : Advance Framing UInt8 Message :=
  match framing.state with
  | .body => framing.stepBody cache
  | .head => framing.stepHead cache

theorem not_short_append (h : headSize ≤ cache.length) (more : Bytes) :
    ¬ (cache ++ more).length < headSize := by
  rw [length_append]
  omega

variable {framing' : Framing} (more : Bytes)

theorem stepHead_next_append (h : framing.stepHead cache = .next framing' rest out) :
    framing.stepHead (cache ++ more) = .next framing' (rest ++ more) out := by
  rw [stepHead] at h
  split at h
  · split at h <;> cases h
  · next hlen =>
    rw [not_lt] at hlen
    split at h
    · cases h
    · next hsig =>
      cases h
      rw [stepHead, if_neg (not_short_append hlen more), read_append hlen, if_neg hsig,
        drop_append_of_le_length hlen]

theorem stepHead_reject_append (h : framing.stepHead cache = .reject) :
    framing.stepHead (cache ++ more) = .reject := by
  rw [stepHead] at h
  split at h
  · split at h
    · next hbad =>
      obtain ⟨hlen, hsig⟩ := hbad
      have hfirst : (cache ++ more).take 8 = cache.take 8 := take_append_of_le_length hlen
      rw [stepHead]
      split
      · rw [hfirst, if_pos ⟨by rw [length_append]; omega, hsig⟩]
      · have hread : (read (cache ++ more)).signature ≠ levinSignature := by
          rw [BucketHead.read, hfirst]
          exact hsig
        rw [if_pos hread]
    · cases h
  · next hlen =>
    rw [not_lt] at hlen
    split at h
    · next hsig =>
      rw [stepHead, if_neg (not_short_append hlen more), read_append hlen, if_pos hsig]
    · cases h

theorem stepBody_of_le (h : framing.currentHead.cb.toNat ≤ cache.length) :
    framing.stepBody cache =
      (framing.carve (cache.take framing.currentHead.cb.toNat)).advance
        (cache.drop framing.currentHead.cb.toNat) :=
  if_neg (not_lt.mpr h)

theorem stepBody_append (h : framing.currentHead.cb.toNat ≤ cache.length) (more : Bytes) :
    framing.stepBody (cache ++ more) =
      (framing.carve (cache.take framing.currentHead.cb.toNat)).advance
        (cache.drop framing.currentHead.cb.toNat ++ more) := by
  have hlonger : framing.currentHead.cb.toNat ≤ (cache ++ more).length := by
    rw [length_append]
    omega
  rw [stepBody_of_le hlonger, take_append_of_le_length h, drop_append_of_le_length h]

theorem stepBody_ready (h : framing.stepBody cache = r) (hr : r ≠ .wait) :
    framing.currentHead.cb.toNat ≤ cache.length ∧
      (framing.carve (cache.take framing.currentHead.cb.toNat)).advance
        (cache.drop framing.currentHead.cb.toNat) = r := by
  rcases lt_or_ge cache.length framing.currentHead.cb.toNat with hshort | hready
  · exact absurd (h.symm.trans (if_pos hshort)) hr
  · exact ⟨hready, (stepBody_of_le hready).symm.trans h⟩

theorem stepBody_next_append (h : framing.stepBody cache = .next framing' rest out) :
    framing.stepBody (cache ++ more) = .next framing' (rest ++ more) out := by
  obtain ⟨hready, h⟩ := stepBody_ready h nofun
  rw [stepBody_append hready]
  exact Carved.advance_next_append h more

theorem stepBody_reject_append (h : framing.stepBody cache = .reject) :
    framing.stepBody (cache ++ more) = .reject := by
  obtain ⟨hready, h⟩ := stepBody_ready h nofun
  rw [stepBody_append hready]
  exact Carved.advance_reject h _

end Framing

def framer : Framer Framing UInt8 Message where
  step := step
  next_append := by
    intro framing framing' cache rest out more h
    rw [step] at h ⊢
    cases hstate : framing.state with
    | body =>
      rw [hstate] at h
      exact stepBody_next_append more h
    | head =>
      rw [hstate] at h
      exact stepHead_next_append more h
  reject_append := by
    intro framing cache more h
    rw [step] at h ⊢
    cases hstate : framing.state with
    | body =>
      rw [hstate] at h
      exact stepBody_reject_append more h
    | head =>
      rw [hstate] at h
      exact stepHead_reject_append more h

theorem framer_head (h : framing.state = .head) (cache : Bytes) :
    framer.step framing cache = framing.stepHead cache := by
  change step framing cache = _
  rw [step, h]

theorem framer_body (h : framing.state = .body) (cache : Bytes) :
    framer.step framing cache = framing.stepBody cache := by
  change step framing cache = _
  rw [step, h]

variable {σ : Type}

def Event.Sound (event : Event) : Prop :=
  event.message.isResponse = false → event.handled = true

def Turn.Follows (connection : Connection σ) (step : Advance Framing UInt8 Message) :
    Turn σ → Prop
  | .stop later => step = .wait ∧ later.framing = connection.framing ∧
      later.cacheInBuffer = connection.cacheInBuffer
  | .refuse _ _ => True
  | .again event later =>
    step = .next later.framing later.cacheInBuffer (event.map Event.message) ∧
      ∀ sent ∈ event, sent.Sound

namespace Config
variable (config : Config σ)

theorem handled_sound (message : Message) : ∀ sent ∈ some (Event.mk message true), sent.Sound := by
  intro sent hsent _
  rw [← some.inj hsent]

theorem dispatch_follows (start connection : Connection σ) (payload : Bytes) :
    (config.dispatch connection payload).Follows start
      (.next connection.framing connection.cacheInBuffer
        (some (connection.framing.message payload))) := by
  rw [dispatch]
  split
  · next hresponse =>
    rw [dispatchResponse]
    cases connection.link.invokeResponseHandlers with
    | nil => trivial
    | cons handler handlers =>
      cases handler with
      | none =>
        refine ⟨rfl, ?_⟩
        intro sent hsent hrequest
        rw [← some.inj hsent, Message.isResponse, message, purpose, if_pos hresponse] at hrequest
        cases hrequest
      | some command => exact ⟨rfl, handled_sound _⟩
  · split
    · rw [dispatchInvoke]
      dsimp only
      split
      · exact ⟨rfl, handled_sound _⟩
      · trivial
    · rw [dispatchNotify]
      dsimp only
      split
      · trivial
      · exact ⟨rfl, handled_sound _⟩

theorem partialBody_follows (received : Nat) (connection : Connection σ) :
    (config.partialBody received connection).Follows connection .wait := by
  rw [partialBody]
  split
  · exact ⟨rfl, rfl, rfl⟩
  · cases connection.link.invokeResponseHandlers with
    | nil => exact ⟨rfl, rfl, rfl⟩
    | cons handler handlers =>
      cases handler with
      | none => trivial
      | some command =>
        dsimp only
        split
        · exact ⟨rfl, rfl, rfl⟩
        · trivial

theorem turn_follows (maxPacketSize received : Nat) (connection : Connection σ) :
    (config.turn maxPacketSize received connection).Follows connection
      (framer.step connection.framing connection.cacheInBuffer) := by
  rw [turn]
  cases hstate : connection.framing.state with
  | body =>
    rw [framer_body hstate]
    rw [bodyTurn, stepBody]
    split
    · exact config.partialBody_follows received connection
    · cases connection.framing.carve
        (connection.cacheInBuffer.take connection.framing.currentHead.cb.toNat) with
      | skip framing => exact ⟨rfl, nofun⟩
      | broken framing => trivial
      | whole framing payload => exact config.dispatch_follows connection ⟨_, framing, _⟩ payload
      | joined framing payload =>
        dsimp only
        split
        · exact config.dispatch_follows connection ⟨_, framing, _⟩ payload
        · trivial
  | head =>
    rw [framer_head hstate]
    rw [headTurn, stepHead]
    dsimp only
    split
    · split
      · trivial
      · exact ⟨rfl, rfl, rfl⟩
    · split
      · trivial
      · split
        · split
          · exact ⟨rfl, nofun⟩
          · trivial
        · trivial

def Any (_ : Framing) (_ : Option Message) : Prop := True

theorem toList_map_message (event : Option Event) :
    (event.map Event.message).toList = event.toList.map Event.message := by
  cases event with
  | none => rfl
  | some event => rfl

structure Received (connection : Connection σ) (data : Bytes) (events : List Event)
    (later : Connection σ) : Prop where
  completes : framer.Completes Any connection.framing (connection.cacheInBuffer ++ data)
    (events.map Event.message) later.framing later.cacheInBuffer
  sound : ∀ event ∈ events, event.Sound

variable {connection later : Connection σ}

theorem receiveLoop_received {maxPacketSize received fuel : Nat}
    (h : config.receiveLoop maxPacketSize received fuel connection = (true, events, later)) :
    Received connection [] events later := by
  induction fuel generalizing connection events with
  | zero => cases h
  | succ fuel ih =>
    have hturn := config.turn_follows maxPacketSize received connection
    rw [receiveLoop] at h
    cases hcase : config.turn maxPacketSize received connection with
    | stop next =>
      rw [hcase] at h hturn
      cases h
      obtain ⟨hwait, hframing, hcache⟩ := hturn
      refine ⟨?_, nofun⟩
      rw [hframing, hcache, append_nil]
      exact .refl hwait
    | refuse event next =>
      rw [hcase] at h
      cases h
    | again event next =>
      rw [hcase] at h hturn
      obtain ⟨hstep, hsound⟩ := hturn
      obtain ⟨haccepted, hevents⟩ := Prod.mk.inj h
      obtain ⟨rfl, hlater⟩ := Prod.mk.inj hevents
      have hrest : config.receiveLoop maxPacketSize received fuel next =
          (true, (config.receiveLoop maxPacketSize received fuel next).2.1, later) := by
        rw [← haccepted, ← hlater]
      obtain ⟨hcompletes, hothers⟩ := ih hrest
      rw [append_nil] at hcompletes
      refine ⟨?_, forall_mem_append.mpr ⟨?_, hothers⟩⟩
      · rw [map_append, ← toList_map_message, append_nil]
        exact ⟨.step hstep trivial hcompletes.runs, hcompletes.waits⟩
      · intro sent hsent
        exact hsound sent (mem_toList.mp hsent)

theorem handleRecv_received {data : Bytes}
    (h : config.handleRecv connection data = (true, events, later)) :
    Received connection data events later := by
  rw [handleRecv] at h
  repeat' (split at h; · cases h)
  obtain ⟨hcompletes, hsound⟩ := config.receiveLoop_received h
  rw [append_nil] at hcompletes
  exact ⟨hcompletes, hsound⟩

theorem receiveAll_received {calls : List (Call σ)}
    (hwaits : framer.step connection.framing connection.cacheInBuffer = .wait)
    (h : config.receiveAll connection calls = some (events, later)) :
    Received connection (calls.map Call.data).flatten events later := by
  induction calls generalizing connection events with
  | nil =>
    cases h
    refine ⟨?_, nofun⟩
    rw [map_nil, flatten_nil, append_nil]
    exact .refl hwaits
  | cons call calls ih =>
    rw [receiveAll] at h
    split at h
    · cases h
    · next first middle hfirst =>
      obtain ⟨⟨rest, last⟩, hrest, hpair⟩ := map_eq_some_iff.mp h
      cases hpair
      obtain ⟨hcall, hsound⟩ := config.handleRecv_received hfirst
      obtain ⟨hlater, hothers⟩ := ih hcall.waits hrest
      refine ⟨?_, forall_mem_append.mpr ⟨hsound, hothers⟩⟩
      rw [map_cons, flatten_cons, ← append_assoc, map_append]
      exact ⟨(hcall.runs.append _).trans hlater.runs, hlater.waits⟩

end Config
end Jero.Levin
