import Rins.Reactor.Message
import Rins.Reactor.ReactorBuf

/-!
# TcpConn — the server side of a connection

The methods of `tcp_conn` pass the buffer pool and the connection along and return the calls they
make on the rest of the server as a list of effects, in order.

A registered message callback may send on the connection it is called with, so it is a function of
the pool and the output buffer; it does not touch the input buffer.
-/

namespace Rins
namespace Reactor

/-- The event masks used with `add_io_event`. -/
inductive EpollMask
  | epollin
  | epollout
  deriving DecidableEq, Repr

/-- Calls a `tcp_conn` makes on the event loop, on `tcp_server` and on the kernel. -/
inductive ConnEffect
  | connCloseCb
  | decreaseConn (fd : Int)
  | addIoEvent (fd : Int) (mask : EpollMask)
  | delIoEvent (fd : Int)
  | delIoEventMask (fd : Int) (mask : EpollMask)
  | close (fd : Int)
  deriving DecidableEq, Repr

structure TcpConn where
  connfd : Int
  ibuf : ReactorBuf
  obuf : ReactorBuf

/-- What the callback behind `msg_router::call` does to the pool and the output buffer. -/
abbrev MsgCallback :=
  Message → BufPool → ReactorBuf → Except Fault (BufPool × ReactorBuf × List ConnEffect)

namespace TcpConn

/-- The connection as `tcp_conn::tcp_conn` leaves its buffers. -/
def new (fd : Int) : TcpConn :=
  { connfd := fd
    ibuf := none
    obuf := none }

/-! ## `clean_conn` and `do_read` -/

/-- What a method leaves behind. -/
structure Outcome where
  pool : BufPool
  conn : TcpConn
  /-- `clean_conn` was called -/
  cleaned : Bool
  effects : List ConnEffect

/-- `tcp_conn::clean_conn`. -/
def cleanConn (p : BufPool) (conn : TcpConn) : Except Fault Outcome := do
  let (p, ibuf) ← ReactorBuf.clear p conn.ibuf
  let (p, obuf) ← ReactorBuf.clear p conn.obuf
  return {
    pool := p
    conn := { connfd := -1, ibuf := ibuf, obuf := obuf }
    cleaned := true
    effects :=
      [.connCloseCb, .decreaseConn conn.connfd, .delIoEvent conn.connfd, .close conn.connfd] }

/-- What `do_read` leaves behind, with the messages handed to `tcp_server::router.call`. -/
structure ReadOutcome extends Outcome where
  calls : List Message

/-- The bytes a callback finds behind `_ibuf.data()`; for an empty body nothing is read, also not
through a null pointer. -/
def bodyAt (ibuf : ReactorBuf) (n : Int) : Except Fault (List UInt8) :=
  if n = 0 then .ok [] else InputBuf.peek ibuf n

/-- The `while` loop of `tcp_conn::do_read`, for at most the given number of rounds. -/
def parseLoop (cb : MsgCallback) : Nat → BufPool → TcpConn → Except Fault ReadOutcome
  | 0, _, _ => .error .unfinished
  | rounds + 1, p, conn =>
      if conn.ibuf.length ≥ messageHeadLen then do
        let bytes ← InputBuf.peek conn.ibuf messageHeadLen
        let head := MsgHead.decode bytes
        if head.length.toInt > messageLengthLimit ∨ head.length.toInt < 0 then
          let out ← cleanConn p conn
          return { out with calls := [] }
        else if conn.ibuf.length < messageHeadLen + head.length.toInt then
          -- the body is not there yet
          return { pool := p, conn := conn, cleaned := false, effects := [], calls := [] }
        else
          let (p, ibuf) ← ReactorBuf.pop p conn.ibuf messageHeadLen
          let body ← bodyAt ibuf head.length.toInt
          let m : Message := { id := head.id, length := head.length, body := body }
          let (p, obuf, called) ← cb m p conn.obuf
          let (p, ibuf) ← ReactorBuf.pop p ibuf head.length.toInt
          let out ← parseLoop cb rounds p { conn with ibuf := ibuf, obuf := obuf }
          return { out with effects := called ++ out.effects, calls := m :: out.calls }
      else
        return { pool := p, conn := conn, cleaned := false, effects := [], calls := [] }

/-- `tcp_conn::do_read`.  A round of the loop takes at least a head off the buffer, so there are
never more rounds than bytes. -/
def doRead (cb : MsgCallback) (p : BufPool) (conn : TcpConn) (sock : Socket) :
    Except Fault ReadOutcome := do
  let (ret, p, ibuf) ← InputBuf.readData p conn.ibuf sock
  let conn := { conn with ibuf := ibuf }
  if ret = -1 then
    let out ← cleanConn p conn
    return { out with calls := [] }
  else if ret = 0 then
    let out ← cleanConn p conn
    return { out with calls := [] }
  else
    let out ← parseLoop cb (conn.ibuf.length.toNat + 1) p conn
    let ibuf ← InputBuf.adjust out.conn.ibuf
    return { out with conn := { out.conn with ibuf := ibuf } }

/-! ## `do_write` and `send_message` -/

/-- What `do_write` leaves behind, with the bytes the kernel took. -/
structure WriteOutcome extends Outcome where
  taken : List UInt8

/-- The `while` loop of `tcp_conn::do_write`, with one `write2fd` for each answer. -/
def writeLoop (p : BufPool) (conn : TcpConn) : List SysWrite → Except Fault WriteOutcome
  | [] =>
      if conn.obuf.length ≠ 0 then .error .unfinished
      else .ok { pool := p, conn := conn, cleaned := false, effects := [], taken := [] }
  | res :: results =>
      if conn.obuf.length ≠ 0 then do
        let (ret, obuf, taken) ← OutputBuf.write2fd conn.obuf res
        let conn := { conn with obuf := obuf }
        if ret = -1 then
          let out ← cleanConn p conn
          return { out with taken := taken }
        else if ret = 0 then
          return { pool := p, conn := conn, cleaned := false, effects := [], taken := taken }
        else
          let out ← writeLoop p conn results
          return { out with taken := taken ++ out.taken }
      else
        .ok { pool := p, conn := conn, cleaned := false, effects := [], taken := [] }

/-- `tcp_conn::do_write`. -/
def doWrite (p : BufPool) (conn : TcpConn) (results : List SysWrite) :
    Except Fault WriteOutcome := do
  let out ← writeLoop p conn results
  if out.cleaned = false ∧ out.conn.obuf.length = 0 then
    return { out with effects := out.effects ++ [.delIoEventMask out.conn.connfd .epollout] }
  else
    return out

/-- `tcp_conn::send_message`: the return value, then the state. -/
def sendMessage (p : BufPool) (conn : TcpConn) (data : List UInt8) (msglen msgid : Int32) :
    Except Fault (Int × Outcome) := do
  let activeEpollout := decide (conn.obuf.length = 0)
  let head : MsgHead := { id := msgid, length := msglen }
  let (ret, p, obuf) ← OutputBuf.sendData p conn.obuf head.encode messageHeadLen
  if ret ≠ 0 then
    return (-1, { pool := p, conn := { conn with obuf := obuf }, cleaned := false, effects := [] })
  else
    let (ret, p, obuf) ← OutputBuf.sendData p obuf data msglen.toInt
    if ret ≠ 0 then
      -- the body could not be buffered: take the head back
      let (p, obuf) ← ReactorBuf.pop p obuf messageHeadLen
      return (-1,
        { pool := p, conn := { conn with obuf := obuf }, cleaned := false, effects := [] })
    else
      let effects := if activeEpollout then [.addIoEvent conn.connfd .epollout] else []
      return (0,
        { pool := p, conn := { conn with obuf := obuf }, cleaned := false, effects := effects })

end TcpConn
end Reactor
end Rins
