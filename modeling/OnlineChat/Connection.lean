import OnlineChat.Frame
import OnlineChat.Replies

/-!
# The send side of a connection

What `send_m` protects of a `ClientConn`, and the sections under that lock: a packet
is queued and written as far as the socket takes it, the queue is drained later, and
an overpressure notice goes to the socket directly.
-/

namespace OnlineChat

open MiniJson

structure SendSide where
  /-- `fd >= 0`. -/
  isOpen : Bool := true
  /-- The connection has a TLS writer. -/
  tls : Bool := false
  sendSeq : Int := 0
  outbuf : Bytes := []

/-- The result of one write call.  `accepted n` takes at most `n` bytes; to a TLS
writer `wouldBlock` is `SSL_ERROR_WANT_WRITE`, and anything else is an error. -/
inductive WriteResult where
  | accepted (n : Nat)
  | interrupted
  | wouldBlock
  | failed
  deriving DecidableEq

/-- Bytes handed over: taken out of the queue, accepted by the TLS writer before it
failed (they stay in the queue), or the first `n` bytes of a notice, which go to the
socket itself. -/
inductive Write where
  | stream (data : Bytes)
  | unsettled (data : Bytes)
  | notice (body : Bytes) (n : Nat)
  deriving DecidableEq

/-- What a section under `send_m` returns, leaves and hands over. -/
structure Section where
  ok : Bool
  side : SendSide
  writes : List Write

namespace SendSide

/-- `kSendQueueCap`. -/
def kSendQueueCap : Nat := 262144

/-- `kTlsWriteBudget`. -/
def kTlsWriteBudget : Nat := 2

/-- What a write loop did: the number of bytes accepted, whether it ended without an
error, and the results that are left. -/
structure Progress where
  sent : Nat
  ok : Bool
  results : List WriteResult

/-- `TlsConn::write_progress` on `len` bytes, behind `sent` of them.  Without further
results the writer blocks until the budget is used up. -/
def writeProgress (len : Nat) : List WriteResult → Nat → Nat → Progress
  | [], _, sent => ⟨sent, true, []⟩
  | r :: results, retries, sent =>
      if len ≤ sent then ⟨sent, true, r :: results⟩
      else
        match r with
        | .accepted n =>
            if min n (len - sent) = 0 then ⟨sent, false, results⟩
            else writeProgress len results retries (sent + min n (len - sent))
        | .wouldBlock =>
            if kTlsWriteBudget < retries + 1 then ⟨sent, true, results⟩
            else writeProgress len results (retries + 1) sent
        | _ => ⟨sent, false, results⟩

/-- The writes of `sock_send_nb` in the drain loop, behind `sent` bytes of `len`. -/
def writePlain (len : Nat) : List WriteResult → Nat → Progress
  | [], sent => ⟨sent, true, []⟩
  | r :: results, sent =>
      if len ≤ sent then ⟨sent, true, r :: results⟩
      else
        match r with
        | .accepted n =>
            if min n (len - sent) = 0 then ⟨sent, false, results⟩
            else writePlain len results (sent + min n (len - sent))
        | .interrupted => writePlain len results sent
        | .wouldBlock => ⟨sent, true, results⟩
        | .failed => ⟨sent, false, results⟩

/-- The TLS writes of the drain loop: another `write_progress` as long as one made
progress.  Every round but the last consumes a result. -/
def drainTls : Nat → SendSide → List WriteResult → Section × List WriteResult
  | 0, c, results => (⟨true, c, []⟩, results)
  | rounds + 1, c, results =>
      if c.outbuf = [] then (⟨true, c, []⟩, results)
      else
        let p := writeProgress c.outbuf.length results 0 0
        if ¬ p.ok then (⟨false, c, [.unsettled (c.outbuf.take p.sent)]⟩, p.results)
        else if p.sent = 0 then (⟨true, c, []⟩, p.results)
        else
          let (rest, results) := drainTls rounds { c with outbuf := c.outbuf.drop p.sent } p.results
          (⟨rest.ok, rest.side, .stream (c.outbuf.take p.sent) :: rest.writes⟩, results)

/-- `drainOutLocked`. -/
def drainOutLocked (c : SendSide) (results : List WriteResult) : Section × List WriteResult :=
  if c.outbuf = [] then (⟨true, c, []⟩, results)
  else if ¬ c.isOpen then (⟨false, c, []⟩, results)
  else if c.tls then drainTls (results.length + 1) c results
  else
    let p := writePlain c.outbuf.length results 0
    (⟨p.ok, { c with outbuf := c.outbuf.drop p.sent }, [.stream (c.outbuf.take p.sent)]⟩,
      p.results)

/-- The bytes of a notice that one write call takes. -/
def accepted (len : Nat) : List WriteResult → Nat
  | .accepted n :: _ => min n len
  | _ => 0

/-- `notifyOverpressure` for a user at a time. -/
def notifyOverpressure (c : SendSide) (username : Bytes) (ts : Int)
    (results : List WriteResult) : List Write :=
  let body := serialize (overpressureFrame username ts)
  if c.isOpen then [.notice body (accepted (makeWireFrame body).length results)] else []

/-- `sendLocked` of the packet of a body. -/
def sendLocked (c : SendSide) (body : Bytes) (username : Bytes) (ts : Int)
    (results : List WriteResult) : Section :=
  if ¬ c.isOpen then ⟨false, c, []⟩
  else
    let queued := { c with outbuf := c.outbuf ++ makeWireFrame body }
    if kSendQueueCap < queued.outbuf.length then
      ⟨false, queued, queued.notifyOverpressure username ts results⟩
    else if c.tls ∧ c.outbuf ≠ [] then ⟨true, queued, []⟩
    else (queued.drainOutLocked results).1

/-- The body of an object with its `seq`, unless it is longer than a frame may be. -/
def bodyOf (obj : Object) (seq : Int) : Option Bytes :=
  let body := serialize (obj.setNum (bytes "seq") seq)
  if kMaxFrame < body.length then none else some body

/-- The sections under `send_m`. -/
inductive Op where
  | sendFrame (obj : Object)
  | sendRelay (obj : Object) (originSeq : Int)
  | drainSlow
  | close

/-- The body that a section passes to `sendLocked`. -/
def Op.body (c : SendSide) : Op → Option Bytes
  | .sendFrame obj => if c.isOpen then bodyOf obj (c.sendSeq + 1) else none
  | .sendRelay obj originSeq => if c.isOpen then bodyOf obj originSeq else none
  | _ => none

def sendFrame (c : SendSide) (obj : Object) (username : Bytes) (ts : Int)
    (results : List WriteResult) : Section :=
  if ¬ c.isOpen then ⟨false, c, []⟩
  else
    let c := { c with sendSeq := c.sendSeq + 1 }
    match bodyOf obj c.sendSeq with
    | none => ⟨false, c, []⟩
    | some body => c.sendLocked body username ts results

def sendRelay (c : SendSide) (obj : Object) (originSeq : Int) (username : Bytes) (ts : Int)
    (results : List WriteResult) : Section :=
  if ¬ c.isOpen then ⟨false, c, []⟩
  else
    match bodyOf obj originSeq with
    | none => ⟨false, c, []⟩
    | some body => c.sendLocked body username ts results

/-- The drain section of `monitorLoop`. -/
def drainSlow (c : SendSide) (username : Bytes) (ts : Int) (results : List WriteResult) :
    Section :=
  let (drained, results) := c.drainOutLocked results
  if drained.ok ∧ drained.side.outbuf.length ≤ kSendQueueCap then drained
  else
    ⟨false, drained.side, drained.writes ++ drained.side.notifyOverpressure username ts results⟩

/-- `closeConn`. -/
def close (c : SendSide) : SendSide := { c with isOpen := false }

def run (c : SendSide) (op : Op) (username : Bytes) (ts : Int) (results : List WriteResult) :
    Section :=
  match op with
  | .sendFrame obj => c.sendFrame obj username ts results
  | .sendRelay obj originSeq => c.sendRelay obj originSeq username ts results
  | .drainSlow => c.drainSlow username ts results
  | .close => ⟨true, c.close, []⟩

end SendSide

end OnlineChat
