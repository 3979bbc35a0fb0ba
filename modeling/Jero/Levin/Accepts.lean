import Jero.Levin.Framing

namespace Jero.Levin
open Jero.Common List BucketHead Framing
variable {framing later last : Framing} {cache rest left : Bytes} {out : Option Message}
  {maxPacketSize : Nat} {messages : List Message}

def Tame (Sized : UInt32 → Nat → Prop) (framing : Framing) (out : Option Message) : Prop :=
  framing.isResponse = false ∧
    Sized framing.currentHead.command framing.currentHead.cb.toNat ∧
    ∀ message ∈ out, message.purpose = .notify

namespace Framing

def weight (framing : Framing) (cache : Bytes) : Nat :=
  cache.length + framing.fragmentBuffer.length

def pending (framing : Framing) (cache : Bytes) : Nat :=
  2 * cache.length + if framing.state = .body then 1 else 0

theorem notify_of_purpose (h : framing.purpose = .notify) :
    framing.currentHead.haveToReturnData = 0 := by
  rw [purpose] at h
  split at h
  · cases h
  · split at h
    · cases h
    · next hdata => exact not_not.mp hdata

end Framing

def Carved.Shrinks (framing : Framing) (body : Bytes) : Carved → Prop
  | .skip later => later.state = .head ∧
      later.fragmentBuffer.length ≤ body.length + framing.fragmentBuffer.length
  | .broken _ => True
  | .whole later _ => later.state = .head ∧
      later.fragmentBuffer.length ≤ body.length + framing.fragmentBuffer.length
  | .joined later payload => later.state = .head ∧
      later.fragmentBuffer.length ≤ body.length + framing.fragmentBuffer.length ∧
      payload.length ≤ later.currentHead.cb.toNat

theorem Carved.Shrinks.advanced {carved : Carved} {body : Bytes} (h : carved.Shrinks framing body)
    (hadvance : carved.advance cache = .next later rest out) :
    rest = cache ∧ later.state = .head ∧
      later.fragmentBuffer.length ≤ body.length + framing.fragmentBuffer.length := by
  cases carved with
  | skip f =>
    cases hadvance
    exact ⟨rfl, h⟩
  | broken f => cases hadvance
  | whole f payload =>
    cases hadvance
    exact ⟨rfl, h⟩
  | joined f payload =>
    cases hadvance
    exact ⟨rfl, h.1, h.2.1⟩

namespace Framing

theorem joinFragments_shrinks {start : Framing} (hstate : framing.state = .head)
    (body temp : Bytes) : (framing.joinFragments temp).Shrinks start body := by
  rw [joinFragments]
  split
  · trivial
  · dsimp only
    split
    · trivial
    · refine ⟨hstate, Nat.zero_le _, ?_⟩
      rw [length_take]
      exact min_le_left _ _

theorem carve_shrinks (framing : Framing) (body : Bytes) :
    (framing.carve body).Shrinks framing body := by
  rw [carve]
  dsimp only
  split
  · split
    · exact ⟨rfl, Nat.le_add_left _ _⟩
    · split
      · refine ⟨rfl, ?_⟩
        rw [length_append, add_comm]
        refine Nat.add_le_add_left ?_ _
        split
        · exact Nat.zero_le _
        · exact le_refl _
      · exact joinFragments_shrinks rfl body _
  · exact ⟨rfl, Nat.le_add_left _ _⟩

theorem stepBody_shrinks (h : framing.stepBody cache = .next later rest out) :
    later.state = .head ∧ rest.length ≤ cache.length ∧
      later.weight rest ≤ framing.weight cache := by
  obtain ⟨-, h⟩ := stepBody_ready h nofun
  obtain ⟨rfl, hstate, hlen⟩ := (framing.carve_shrinks _).advanced h
  have hsplit : (cache.take framing.currentHead.cb.toNat).length +
      (cache.drop framing.currentHead.cb.toNat).length = cache.length := by
    rw [← length_append, take_append_drop]
  exact ⟨hstate, by omega, by rw [weight, weight]; omega⟩

theorem stepHead_shrinks (h : framing.stepHead cache = .next later rest out) :
    rest.length + headSize = cache.length ∧ later.fragmentBuffer = framing.fragmentBuffer := by
  rw [stepHead] at h
  split at h
  · split at h <;> cases h
  · next hlen =>
    split at h
    · cases h
    · cases h
      rw [length_drop]
      exact ⟨Nat.sub_add_cancel (Nat.not_lt.mp hlen), rfl⟩

variable (h : framer.step framing cache = .next later rest out)
include h

theorem step_weight :
    later.weight rest ≤ framing.weight cache := by
  cases hstate : framing.state with
  | body =>
    rw [framer_body hstate] at h
    exact (stepBody_shrinks h).2.2
  | head =>
    rw [framer_head hstate] at h
    obtain ⟨hlen, hkept⟩ := stepHead_shrinks h
    rw [weight, weight, hkept, ← hlen]
    omega

theorem step_pending :
    later.pending rest < framing.pending cache := by
  cases hstate : framing.state with
  | body =>
    rw [framer_body hstate] at h
    obtain ⟨hlater, hlen, -⟩ := stepBody_shrinks h
    rw [pending, pending, if_pos hstate, hlater, if_neg (by decide)]
    omega
  | head =>
    rw [framer_head hstate] at h
    obtain ⟨hlen, -⟩ := stepHead_shrinks h
    rw [headSize] at hlen
    rw [pending, pending]
    split <;> omega

omit h
end Framing
variable {σ : Type}

structure Config.Accepting (config : Config σ) (room : Nat) (Good : Link σ → Prop) : Prop where
  commandsHandler : config.commandsHandler = true
  stays : ∀ link, Good link → link.closeCalled = false
  roomy : ∀ link, Good link → room ≤ link.maxPacketSize
  timer : ∀ link, Good link → ∀ handler ∈ link.invokeResponseHandlers.head?,
    ∃ command, handler = some command ∧ (config.resetTimer command link).1 = true ∧
      Good (config.resetTimer command link).2
  notified : ∀ link, Good link → ∀ command payload,
    0 ≤ (config.notify command payload link).1 ∧ Good (config.notify command payload link).2

namespace Config

def Fits (config : Config σ) (room : Nat) (command : UInt32) (size : Nat) : Prop :=
  size ≤ min room (config.getMaxBytes command)

variable {config : Config σ} {room : Nat} {Good : Link σ → Prop}

def Continues (Good : Link σ → Prop) (later : Framing) (rest : Bytes) (out : Option Message)
    (turn : Turn σ) : Prop :=
  ∃ link, turn = .again (out.map fun message => ⟨message, true⟩) ⟨rest, later, link⟩ ∧ Good link

variable {link : Link σ} {ahead : Bytes}

theorem dispatch_accepts (ha : config.Accepting room Good) (rest : Bytes) (hgood : Good link)
    (payload : Bytes) (htame : Tame (config.Fits room) framing (some (framing.message payload))) :
    Continues Good framing rest (some (framing.message payload))
      (config.dispatch ⟨rest, framing, link⟩ payload) := by
  obtain ⟨hresponse, -, hpurpose⟩ := htame
  have hdata := notify_of_purpose (hpurpose _ rfl)
  obtain ⟨hresult, hkept⟩ := ha.notified _ hgood framing.currentHead.command payload
  refine ⟨_, ?_, hkept⟩
  rw [dispatch, if_neg (Bool.not_eq_true _ ▸ hresponse), if_neg (not_not.mpr hdata), dispatchNotify]
  exact if_neg (Int.not_lt.mpr hresult)

variable {connection : Connection σ}

theorem withinLimit_of_fits {size bound : Nat} (hroom : room ≤ maxPacketSize)
    (hfits : config.Fits room framing.currentHead.command bound) (hsize : size ≤ bound) :
    config.withinLimit framing maxPacketSize size = true := by
  rw [withinLimit, decide_eq_true_eq]
  refine Nat.le_min.mpr ⟨?_, ?_⟩
  · exact hsize.trans ((hfits.trans (Nat.min_le_left _ _)).trans hroom)
  · exact hsize.trans (hfits.trans (min_le_right _ _))

theorem validate_of_request (h : framing.isResponse = false) :
    link.validateResponseCommand framing = true := by
  rw [Link.validateResponseCommand, h]
  rfl

section
variable {connection : Connection σ} (hgood : Good connection.link) (hroom : room ≤ maxPacketSize)
  (htame : Tame (config.Fits room) later out)
include hgood hroom htame

theorem bodyTurn_accepts (ha : config.Accepting room Good) (received : Nat)
    (hstep : connection.framing.stepBody connection.cacheInBuffer = .next later rest out) :
    Continues Good later rest out (config.bodyTurn maxPacketSize received connection) := by
  obtain ⟨hready, hstep⟩ := stepBody_ready hstep nofun
  have hshrinks := connection.framing.carve_shrinks
    (connection.cacheInBuffer.take connection.framing.currentHead.cb.toNat)
  rw [bodyTurn]
  rw [if_neg (not_lt.mpr hready)]
  cases hcarve : connection.framing.carve
      (connection.cacheInBuffer.take connection.framing.currentHead.cb.toNat) with
  | skip framing =>
    rw [hcarve] at hstep
    cases hstep
    exact ⟨_, rfl, hgood⟩
  | broken framing =>
    rw [hcarve] at hstep
    cases hstep
  | whole framing payload =>
    rw [hcarve] at hstep
    cases hstep
    exact dispatch_accepts ha _ hgood payload htame
  | joined framing payload =>
    rw [hcarve] at hstep hshrinks
    cases hstep
    obtain ⟨-, -, hpayload⟩ := hshrinks
    dsimp only
    rw [validate_of_request htame.1, withinLimit_of_fits hroom htame.2.1 hpayload, Bool.and_self,
      if_pos rfl]
    exact dispatch_accepts ha _ hgood payload htame

theorem headTurn_accepts
    (hstep : connection.framing.stepHead connection.cacheInBuffer = .next later rest out) :
    Continues Good later rest out (config.headTurn maxPacketSize connection) := by
  rw [stepHead] at hstep
  rw [headTurn]
  split at hstep
  · split at hstep <;> cases hstep
  · next hlen =>
    split at hstep
    · cases hstep
    · next hsig =>
      cases hstep
      have hvalid : connection.link.validateResponseCommand
          { connection.framing with
            currentHead := read connection.cacheInBuffer
            oponentProtocolVer := (read connection.cacheInBuffer).protocolVersion } =
          true :=
        validate_of_request htame.1
      have hlimit : config.withinLimit
          { connection.framing with
            currentHead := read connection.cacheInBuffer
            oponentProtocolVer := (read connection.cacheInBuffer).protocolVersion }
          maxPacketSize (read connection.cacheInBuffer).cb.toNat = true :=
        withinLimit_of_fits hroom htame.2.1 (le_refl _)
      rw [if_neg hlen, if_neg hsig, if_pos hvalid, if_pos hlimit]
      exact ⟨connection.link, rfl, hgood⟩

end

theorem turn_waits (ha : config.Accepting room Good)
    (hgood : Good connection.link) (maxPacketSize received : Nat)
    (hstep : framer.step connection.framing connection.cacheInBuffer = .wait) :
    ∃ link, config.turn maxPacketSize received connection = .stop { connection with link := link } ∧
      Good link := by
  rw [turn]
  cases hstate : connection.framing.state with
  | body =>
    rw [framer_body hstate] at hstep
    rw [bodyTurn]
    dsimp only
    split
    · rw [partialBody]
      split
      · exact ⟨_, rfl, hgood⟩
      · have htimer := ha.timer _ hgood
        cases hhandlers : connection.link.invokeResponseHandlers with
        | nil => exact ⟨_, rfl, hgood⟩
        | cons handler handlers =>
          rw [hhandlers] at htimer
          obtain ⟨command, rfl, hreset, hkept⟩ := htimer handler rfl
          refine ⟨_, ?_, hkept⟩
          dsimp only
          split
          · next link hcase => rw [hcase]
          · next link hcase =>
            rw [hcase] at hreset
            cases hreset
    · next hlen =>
      rw [stepBody_of_le (not_lt.mp hlen)] at hstep
      cases hcarve : connection.framing.carve
          (connection.cacheInBuffer.take connection.framing.currentHead.cb.toNat) <;>
        rw [hcarve] at hstep <;> cases hstep
  | head =>
    rw [framer_head hstate, stepHead] at hstep
    rw [headTurn]
    split at hstep
    · next hlen =>
      split at hstep
      · cases hstep
      · next hsig =>
        rw [if_pos hlen, if_neg hsig]
        exact ⟨connection.link, rfl, hgood⟩
    · split at hstep <;> cases hstep

structure Accepted (config : Config σ) (room : Nat) (Good : Link σ → Prop) (ahead : Bytes)
    (last : Framing) (left : Bytes) (weight : Nat)
    (result : Bool × List Event × Connection σ) : Prop where
  accepted : result.1 = true
  handled : ∀ event ∈ result.2.1, event.handled = true
  good : Good result.2.2.link
  light : result.2.2.framing.weight result.2.2.cacheInBuffer ≤ weight
  goes : ∃ messages, framer.Completes (Tame (config.Fits room)) result.2.2.framing
    (result.2.2.cacheInBuffer ++ ahead) messages last left

theorem receiveLoop_accepts (ha : config.Accepting room Good) (hroom : room ≤ maxPacketSize)
    (received : Nat) (fuel : Nat) (connection : Connection σ) (hgood : Good connection.link)
    (hfuel : connection.framing.pending connection.cacheInBuffer < fuel)
    (hgoes : framer.Completes (Tame (config.Fits room)) connection.framing
      (connection.cacheInBuffer ++ ahead) messages last left) :
    config.Accepted room Good ahead last left
      (connection.framing.weight connection.cacheInBuffer)
      (config.receiveLoop maxPacketSize received fuel connection) := by
  induction fuel generalizing connection messages with
  | zero => cases hfuel
  | succ fuel ih =>
    rw [receiveLoop]
    cases hstep : framer.step connection.framing connection.cacheInBuffer with
    | reject => exact absurd hstep hgoes.not_reject
    | wait =>
      obtain ⟨link, hturn, hkept⟩ := turn_waits ha hgood maxPacketSize received hstep
      rw [hturn]
      exact ⟨rfl, forall_mem_nil _, hkept, le_refl _, messages, hgoes⟩
    | next later rest out =>
      obtain ⟨htame, more, -, hmore⟩ := hgoes.advance (framer.next_append ahead hstep)
      obtain ⟨link, hturn, hkept⟩ : Continues Good later rest out (config.turn maxPacketSize
        received connection) := by
        rw [turn]
        cases hstate : connection.framing.state with
        | body =>
          rw [framer_body hstate] at hstep
          exact bodyTurn_accepts hgood hroom htame ha received hstep
        | head =>
          rw [framer_head hstate] at hstep
          exact headTurn_accepts hgood hroom htame hstep
      have hless := step_pending hstep
      have hrest := ih ⟨rest, later, link⟩ hkept (lt_of_lt_of_le hless (Nat.le_of_lt_succ hfuel))
        hmore
      rw [hturn]
      refine ⟨hrest.accepted, forall_mem_append.mpr ⟨?_, hrest.handled⟩, hrest.good,
        hrest.light.trans (step_weight hstep), hrest.goes⟩
      intro event hevent
      rw [Option.mem_toList, Option.map_eq_some_iff] at hevent
      obtain ⟨message, -, rfl⟩ := hevent
      rfl

theorem handleRecv_accepts (ha : config.Accepting room Good) {data : Bytes}
    (connection : Connection σ) (hgood : Good connection.link)
    (hroom : connection.framing.weight connection.cacheInBuffer + data.length ≤ room)
    (hgoes : framer.Completes (Tame (config.Fits room)) connection.framing
      (connection.cacheInBuffer ++ data ++ ahead) messages last left) :
    config.Accepted room Good ahead last left
      (connection.framing.weight connection.cacheInBuffer + data.length)
      (config.handleRecv connection data) := by
  have hroomy := ha.roomy _ hgood
  rw [weight] at hroom
  have hloop := receiveLoop_accepts ha hroomy data.length
    (2 * (connection.cacheInBuffer ++ data).length + 2)
    { connection with cacheInBuffer := connection.cacheInBuffer ++ data } hgood
    (by dsimp only [pending]; split <;> omega) hgoes
  rw [handleRecv]
  rw [ha.stays _ hgood, ha.commandsHandler, if_neg (by decide), if_neg (by decide),
    if_neg (by omega), if_neg (by omega), if_neg (by omega)]
  refine ⟨hloop.accepted, hloop.handled, hloop.good, hloop.light.trans ?_, hloop.goes⟩
  rw [weight, weight, length_append]
  dsimp only
  omega

theorem receiveAll_accepts (ha : config.Accepting room Good)
    {calls : List (Call σ)} (hgood : Good connection.link)
    (hmeanwhile : ∀ call ∈ calls, ∀ link, Good link → Good (call.meanwhile link))
    (hroom : connection.framing.weight connection.cacheInBuffer +
      (calls.map Call.data).flatten.length ≤ room)
    (hgoes : framer.Completes (Tame (config.Fits room)) connection.framing
      (connection.cacheInBuffer ++ (calls.map Call.data).flatten) messages last left) :
    ∃ events later, config.receiveAll connection calls = some (events, later) ∧
      ∀ event ∈ events, event.handled = true := by
  induction calls generalizing connection messages with
  | nil => exact ⟨[], connection, rfl, nofun⟩
  | cons call calls ih =>
    rw [map_cons, flatten_cons] at hroom hgoes
    rw [length_append] at hroom
    rw [← append_assoc] at hgoes
    have hfirst := handleRecv_accepts ha { connection with link := call.meanwhile connection.link }
      (hmeanwhile call mem_cons_self _ hgood) (by dsimp only; omega) hgoes
    rw [receiveAll]
    generalize config.handleRecv { connection with link := call.meanwhile connection.link }
      call.data = result at hfirst
    obtain ⟨accepted, events, middle⟩ := result
    obtain ⟨rfl, hhandled, hkept, hlight, more, hmore⟩ := hfirst
    dsimp only at hhandled hkept hlight hmore
    obtain ⟨others, later, hrest, hothers⟩ := ih hkept
      (fun other hother => hmeanwhile other (mem_cons_of_mem _ hother)) (by omega) hmore
    refine ⟨events ++ others, later, ?_, forall_mem_append.mpr ⟨hhandled, hothers⟩⟩
    dsimp only
    rw [hrest]
    rfl

end Config
end Jero.Levin
