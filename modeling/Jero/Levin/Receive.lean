import Jero.Levin.Notify

namespace Jero.Levin
open Jero.Common Jero.Machine

inductive StreamState where
  | head
  | body
deriving DecidableEq, Repr

structure Framing where
  state : StreamState
  currentHead : BucketHead
  oponentProtocolVer : UInt32
  fragmentBuffer : Bytes
deriving DecidableEq, Repr

inductive Purpose where
  | response (returnCode : Int32)
  | invoke
  | notify
deriving DecidableEq, Repr

structure Message where
  command : UInt32
  payload : Bytes
  purpose : Purpose
deriving DecidableEq, Repr

def Message.isResponse (message : Message) : Bool :=
  match message.purpose with
  | .response _ => true
  | .invoke => false
  | .notify => false

structure Event where
  message : Message
  handled : Bool
deriving DecidableEq, Repr

structure Link (σ : Type) where
  closeCalled : Bool
  maxPacketSize : Nat
  invokeResponseHandlers : List (Option UInt32)
  context : σ

structure Connection (σ : Type) where
  cacheInBuffer : Bytes
  framing : Framing
  link : Link σ

structure Config (σ : Type) where
  commandsHandler : Bool
  maxPacketSize : Nat
  getMaxBytes : UInt32 → Nat
  handshakeCommand : UInt32
  handshakeComplete : σ → Bool
  resetTimer : UInt32 → Link σ → Bool × Link σ
  handle : UInt32 → Int32 → Bytes → Link σ → Link σ
  invoke : UInt32 → Bytes → Link σ → UInt32 × Bytes × Link σ
  notify : UInt32 → Bytes → Link σ → Int × Link σ
  sendMessage : Bytes → Link σ → Bool × Link σ

namespace Framing

def fresh : Framing :=
  ⟨.head, ⟨0, 0, 0, 0, 0, 0, 0⟩, 0, []⟩

def isResponse (framing : Framing) : Bool :=
  framing.oponentProtocolVer == levinProtocolVer1 &&
    framing.currentHead.flags &&& levinPacketResponse != 0

def purpose (framing : Framing) : Purpose :=
  if framing.isResponse then .response framing.currentHead.returnCode
  else if framing.currentHead.haveToReturnData ≠ 0 then .invoke
  else .notify

def message (framing : Framing) (payload : Bytes) : Message :=
  ⟨framing.currentHead.command, payload, framing.purpose⟩

end Framing

inductive Carved where
  | skip (framing : Framing)
  | broken (framing : Framing)
  | whole (framing : Framing) (payload : Bytes)
  | joined (framing : Framing) (payload : Bytes)

namespace Framing

def joinFragments (framing : Framing) (temp : Bytes) : Carved :=
  if temp.length < headSize then .broken { framing with fragmentBuffer := temp }
  else
    let inner := BucketHead.read temp
    let framing := { framing with currentHead := inner, fragmentBuffer := [] }
    let data := temp.drop headSize
    if data.length < inner.cb.toNat then .broken framing
    else .joined framing (data.take inner.cb.toNat)

def carve (framing : Framing) (body : Bytes) : Carved :=
  let flags := framing.currentHead.flags
  let framing := { framing with state := .head }
  if flags &&& (levinPacketRequest ||| levinPacketResponse) = 0 then
    if flags &&& (levinPacketBegin ||| levinPacketEnd) = levinPacketBegin ||| levinPacketEnd then
      .skip framing
    else
      let kept := if flags &&& levinPacketBegin ≠ 0 then [] else framing.fragmentBuffer
      if flags &&& levinPacketEnd = 0 then
        .skip { framing with fragmentBuffer := kept ++ body }
      else framing.joinFragments (kept ++ body)
  else .whole framing body

end Framing

inductive Turn (σ : Type) where
  | stop (connection : Connection σ)
  | refuse (event : Option Event) (connection : Connection σ)
  | again (event : Option Event) (connection : Connection σ)

variable {σ : Type}

def Connection.fresh (link : Link σ) : Connection σ :=
  ⟨[], .fresh, link⟩

def Link.validateResponseCommand (link : Link σ) (framing : Framing) : Bool :=
  if framing.isResponse then
    match link.invokeResponseHandlers with
    | some command :: _ => framing.currentHead.command == command
    | _ => false
  else true

namespace Config
variable (config : Config σ)

def withinLimit (framing : Framing) (maxPacketSize size : Nat) : Bool :=
  decide (size ≤ min maxPacketSize (config.getMaxBytes framing.currentHead.command))

def dispatchResponse (connection : Connection σ) (payload : Bytes) : Turn σ :=
  let message := connection.framing.message payload
  let link := connection.link
  match link.invokeResponseHandlers with
  | [] => .refuse none connection
  | none :: handlers =>
    .again (some ⟨message, false⟩)
      { connection with link := { link with invokeResponseHandlers := handlers } }
  | some command :: handlers =>
    .again (some ⟨message, true⟩)
      { connection with
        link := config.handle command connection.framing.currentHead.returnCode payload
          { link with invokeResponseHandlers := handlers } }

def afterInvoke (command : UInt32) (link : Link σ) : Link σ :=
  if command = config.handshakeCommand ∧ config.handshakeComplete link.context then
    { link with maxPacketSize := config.maxPacketSize }
  else link

def dispatchInvoke (connection : Connection σ) (payload : Bytes) : Turn σ :=
  let message := connection.framing.message payload
  let command := connection.framing.currentHead.command
  let (returnCode, answer, link) := config.invoke command payload connection.link
  let reply := (MessageWriter.start.put answer).finalizeResponse command returnCode
  match config.sendMessage reply (config.afterInvoke command link) with
  | (true, link) => .again (some ⟨message, true⟩) { connection with link := link }
  | (false, link) => .refuse (some ⟨message, true⟩) { connection with link := link }

def dispatchNotify (connection : Connection σ) (payload : Bytes) : Turn σ :=
  let message := connection.framing.message payload
  let (result, link) := config.notify connection.framing.currentHead.command payload connection.link
  if result < 0 then .refuse (some ⟨message, true⟩) { connection with link := link }
  else .again (some ⟨message, true⟩) { connection with link := link }

def dispatch (connection : Connection σ) (payload : Bytes) : Turn σ :=
  if connection.framing.isResponse then config.dispatchResponse connection payload
  else if connection.framing.currentHead.haveToReturnData ≠ 0 then
    config.dispatchInvoke connection payload
  else config.dispatchNotify connection payload

def minBytesWanted : Nat := 512

def partialBody (received : Nat) (connection : Connection σ) : Turn σ :=
  if received < minBytesWanted then .stop connection
  else
    match connection.link.invokeResponseHandlers with
    | [] => .stop connection
    | none :: _ => .refuse none connection
    | some command :: _ =>
      match config.resetTimer command connection.link with
      | (true, link) => .stop { connection with link := link }
      | (false, link) => .refuse none { connection with link := link }

def bodyTurn (maxPacketSize received : Nat) (connection : Connection σ) : Turn σ :=
  let size := connection.framing.currentHead.cb.toNat
  if connection.cacheInBuffer.length < size then config.partialBody received connection
  else
    let rest := connection.cacheInBuffer.drop size
    match connection.framing.carve (connection.cacheInBuffer.take size) with
    | .skip framing => .again none ⟨rest, framing, connection.link⟩
    | .broken framing => .refuse none ⟨rest, framing, connection.link⟩
    | .whole framing payload => config.dispatch ⟨rest, framing, connection.link⟩ payload
    | .joined framing payload =>
      let connection : Connection σ := ⟨rest, framing, connection.link⟩
      if connection.link.validateResponseCommand framing &&
          config.withinLimit framing maxPacketSize payload.length then
        config.dispatch connection payload
      else .refuse none connection

def headTurn (maxPacketSize : Nat) (connection : Connection σ) : Turn σ :=
  let cache := connection.cacheInBuffer
  if cache.length < headSize then
    if 8 ≤ cache.length ∧ UInt64.ofNat (littleEndian (cache.take 8)) ≠ levinSignature then
      .refuse none connection
    else .stop connection
  else
    let head := BucketHead.read cache
    if head.signature ≠ levinSignature then
      .refuse none { connection with framing := { connection.framing with currentHead := head } }
    else
      let framing := { connection.framing with
        currentHead := head, oponentProtocolVer := head.protocolVersion }
      if connection.link.validateResponseCommand framing then
        let connection : Connection σ :=
          ⟨cache.drop headSize, { framing with state := .body }, connection.link⟩
        if config.withinLimit framing maxPacketSize head.cb.toNat then
          .again none connection
        else .refuse none connection
      else .refuse none { connection with framing := framing }

def turn (maxPacketSize received : Nat) (connection : Connection σ) : Turn σ :=
  match connection.framing.state with
  | .body => config.bodyTurn maxPacketSize received connection
  | .head => config.headTurn maxPacketSize connection

def receiveLoop (maxPacketSize received : Nat) :
    Nat → Connection σ → Bool × List Event × Connection σ
  | 0, connection => (false, [], connection)
  | fuel + 1, connection =>
    match config.turn maxPacketSize received connection with
    | .stop connection => (true, [], connection)
    | .refuse event connection => (false, event.toList, connection)
    | .again event connection =>
      let (accepted, events, connection) :=
        receiveLoop maxPacketSize received fuel connection
      (accepted, event.toList ++ events, connection)

def handleRecv (connection : Connection σ) (data : Bytes) : Bool × List Event × Connection σ :=
  let maxPacketSize := connection.link.maxPacketSize
  let cached := connection.cacheInBuffer.length
  let kept := connection.framing.fragmentBuffer.length
  if connection.link.closeCalled then (false, [], connection)
  else if !config.commandsHandler then (false, [], connection)
  else if maxPacketSize < cached then (false, [], connection)
  else if maxPacketSize - cached < kept then (false, [], connection)
  else if maxPacketSize - cached - kept < data.length then (false, [], connection)
  else
    let cache := connection.cacheInBuffer ++ data
    config.receiveLoop maxPacketSize data.length (2 * cache.length + 2)
      { connection with cacheInBuffer := cache }

structure Call (σ : Type) where
  data : Bytes
  meanwhile : Link σ → Link σ

def receiveAll : Connection σ → List (Call σ) → Option (List Event × Connection σ)
  | connection, [] => some ([], connection)
  | connection, call :: calls =>
    match config.handleRecv { connection with link := call.meanwhile connection.link } call.data with
    | (false, _, _) => none
    | (true, events, connection) =>
      (receiveAll connection calls).map fun later => (events ++ later.1, later.2)

end Config
end Jero.Levin
