import LearnDiary.Socket.TcpClientFsm
import LearnDiary.Http.Builder

/-!
# The check of a new connection (comm/socket/complexconnect.cc)

Three classes derived from `TcpClientFSM` decide whether a connection is usable: one asks the
observer, two first have a proxy (HTTP tunnel, SOCKS5) connect on.  What the observer answers is
part of a callback, as is the number of turns the HTTP parser takes.
-/

inductive TCheckStatus where
  | ECheckInit
  | EConnProxySucc
  | EProxyHttpTunelConnSvrReq
  | EProxySocks5GreetReq
  | EProxySocks5GreetSucc
  | EProxySocks5AuthReq
  | EProxySocks5AuthSucc
  | EProxySocks5ConnSvrReq
  | EProxyConnSvrSucc
  | ECheckOK
  | ECheckFail
deriving DecidableEq

/-- the data of `ConnectCheckFSM`; `observer_` tells whether there is one -/
structure Check where
  observer_ : Bool
  check_status_ : TCheckStatus
deriving DecidableEq

/-- what the observer answers, with the send buffer `OnVerifySend` leaves; `turns` is how often the
loop of the HTTP parser runs -/
structure Answers where
  onShouldVerify : Bool := false
  onVerifySend : Bool := true
  sendBuf : Bytes := []
  onVerifyRecv : Bool := true
  turns : Nat := 0
deriving DecidableEq

/-- the destination behind the proxy and the account; `net_addr` is `inet_addr(ip)` in memory -/
structure Proxied where
  ip : Bytes
  net_addr : Bytes
  port : UInt16
  username_ : Bytes
  password_ : Bytes
deriving DecidableEq

namespace Bufs

def setStatus (b : Bufs Check) (check_status_ : TCheckStatus) : Bufs Check :=
  { b with own := { b.own with check_status_ } }

end Bufs

namespace CheckFsm

/-! ## `ConnectCheckFSM` -/

/-- the status a `ConnectCheckFSM` starts with -/
def initial (observer_ onShouldVerify : Bool) : TCheckStatus :=
  if observer_ && onShouldVerify then .ECheckInit else .ECheckOK

def connectCheck : Virtual Check Answers where
  onConnected a b :=
    if !b.own.observer_ then b
    else if b.own.check_status_ = .ECheckOK then b
    else
      let b := { b with send_buf_ := a.sendBuf }
      if !a.onVerifySend then b.setStatus .ECheckFail else b
  onRequestSend _ b := some b
  onSend _ b := b
  onRecv a b :=
    if !b.own.observer_ then some b
    else if b.own.check_status_ = .ECheckOK then some b
    else some (b.setStatus (if a.onVerifyRecv then .ECheckOK else .ECheckFail))

/-- `_OnConnected` of both classes for a proxy -/
def proxyConnected (_ : Answers) (b : Bufs Check) : Bufs Check :=
  if b.own.check_status_ = .ECheckOK then b
  else { b with request_send_ := true }.setStatus .EConnProxySucc

/-- the answer to the last check, in both classes for a proxy -/
def verifyRecv (a : Answers) (b : Bufs Check) : Bufs Check :=
  b.setStatus (if b.own.observer_ && a.onVerifyRecv then .ECheckOK else .ECheckFail)

def connected (a : Answers) (b : Bufs Check) : TCheckStatus :=
  if b.own.observer_ && a.onShouldVerify then .EProxyConnSvrSucc else .ECheckOK

/-! ## `ConnectHttpTunelCheckFSM` -/

def base64_to_char (value : UInt8) : UInt8 :=
  if value < 26 then value + 65
  else if value < 52 then value - 26 + 97
  else if value < 62 then value - 52 + 48
  else if value = 62 then 43
  else 47

/-- `Comm::EncodeBase64` -/
def encodeBase64 : Bytes → Bytes
  | [] => []
  | [x] => [base64_to_char (x >>> 2), base64_to_char ((x &&& 0x03) <<< 4), 61, 61]
  | [x, y] => [base64_to_char (x >>> 2), base64_to_char ((x &&& 0x03) <<< 4 ||| (y &&& 0xF0) >>> 4),
      base64_to_char ((y &&& 0x0F) <<< 2), 61]
  | x :: y :: z :: l =>
    base64_to_char (x >>> 2) :: base64_to_char ((x &&& 0x03) <<< 4 ||| (y &&& 0xF0) >>> 4) ::
      base64_to_char ((y &&& 0x0F) <<< 2 ||| (z &&& 0xC0) >>> 6) :: base64_to_char (z &&& 0x3F) ::
      encodeBase64 l

/-- `snprintf` into 64 bytes keeps 63 of them -/
def ip_port (p : Proxied) : Bytes := (cstr p.ip ++ ascii ":" ++ printNat 10 p.port.toNat).take 63

def auth_info (p : Proxied) : Bytes :=
  (ascii "Basic " ++ encodeBase64 (p.username_ ++ ascii ":" ++ p.password_)).take 1023

def reqFields (p : Proxied) : Http.HeaderFields :=
  let fields := ((({} : Http.HeaderFields).headerFiled (ascii "Host") (ip_port p)).headerFiled
    (ascii "Proxy-Connection") (ascii "keep-alive")).headerFiled (ascii "User-Agent")
    (ascii "MicroMessenger Client")
  if p.username_ ≠ [] ∧ p.password_ ≠ [] then
    fields.headerFiled (ascii "Proxy-Authorization") (auth_info p)
  else fields

/-- the request the HTTP proxy is sent -/
def connectRequest (p : Proxied) : Bytes :=
  let req_builder : Http.Builder := {
    csmode_ := .kRequest
    requestline_ := ⟨.kConnect, ip_port p, .kVersion_1_1⟩
    headfields_ := reqFields p }
  (req_builder.headerToBuffer .new).2.data

/-- `parser.Recv` of a new parser, where its loop is left within `turns` turns -/
def parse (turns : Nat) (buf : Bytes) : Option Http.Parser :=
  if buf = [] then some {}
  else
    match Loop.iter Http.recvTurn turns (Http.enter {} buf) with
    | .ret q => some q
    | _ => none

def httpTunel (p : Proxied) : Virtual Check Answers where
  onConnected := proxyConnected
  onRequestSend a b :=
    match b.own.check_status_ with
    | .EConnProxySucc =>
      some ({ b with send_buf_ := b.send_buf_ ++ connectRequest p }.setStatus
        .EProxyHttpTunelConnSvrReq)
    | .EProxyConnSvrSucc =>
      if b.own.observer_ then
        let b := { b with send_buf_ := a.sendBuf }
        some (if a.onVerifySend then b else b.setStatus .ECheckFail)
      else none
    | _ => some b
  onSend _ b := b
  onRecv a b :=
    match b.own.check_status_ with
    | .ECheckOK => some b
    | .EProxyHttpTunelConnSvrReq =>
      (parse a.turns b.recv_buf_).map fun q =>
        if q.recvstatus_ ≠ .kEnd then b
        else if q.statusline_.statuscode_ = 200 then
          { b with request_send_ := true, recv_buf_ := [] }.setStatus (connected a b)
        else b.setStatus .ECheckFail
    | .EProxyConnSvrSucc => some (verifyRecv a b)
    | _ => some b

/-! ## `ConnectSocks5CheckFSM` -/

def kSocks5Version : UInt8 := 0x05
def kSocks5AuthVersion : UInt8 := 0x01
def kSockstNAuthMethos : UInt8 := 0x01
def kSocks5NoAuth : UInt8 := 0x00
def kSocks5UsrNamePwdAuth : UInt8 := 0x02
def kSocks5RespStatus : UInt8 := 0x00
def kSocks5ConnectCmd : UInt8 := 0x01
def kSocks5RsvVal : UInt8 := 0x00
def kSocksATYPIPv4 : UInt8 := 0x01
def kSocksATYPHost : UInt8 := 0x03
def kSocksATYPIPv6 : UInt8 := 0x04

def socks5_greet_data (p : Proxied) : Bytes :=
  [kSocks5Version, kSockstNAuthMethos,
    if p.username_ = [] ∨ p.password_ = [] then kSocks5NoAuth else kSocks5UsrNamePwdAuth]

/-- the user and the password, each behind its length -/
def authRequest (p : Proxied) : Bytes :=
  kSocks5AuthVersion :: p.username_.length.toUInt8 :: p.username_ ++
    p.password_.length.toUInt8 :: p.password_

/-- the address and the port in network order -/
def connSvrRequest (p : Proxied) : Bytes :=
  [kSocks5Version, kSocks5ConnectCmd, kSocks5RsvVal, kSocksATYPIPv4] ++ p.net_addr ++
    [(p.port >>> 8).toUInt8, p.port.toUInt8]

/-- the reply to the connect request is not all there; the byte behind four received ones is not
looked at in effect, since they are too few whatever it is -/
def connReplyShort (buf : Bytes) : Bool :=
  let atyp := buf.getD 3 0
  decide (buf.length < 4) ||
    (atyp == kSocksATYPIPv4 && decide (buf.length < 6 + 4)) ||
    (atyp == kSocksATYPHost && decide (buf.length < 6 + 1 + (buf.getD 4 0).toNat)) ||
    (atyp == kSocksATYPIPv6 && decide (buf.length < 6 + 16))

def socks5 (p : Proxied) : Virtual Check Answers where
  onConnected := proxyConnected
  onRequestSend a b :=
    match b.own.check_status_ with
    | .EConnProxySucc =>
      some ({ b with send_buf_ := socks5_greet_data p }.setStatus .EProxySocks5GreetReq)
    | .EProxySocks5GreetSucc =>
      if p.username_ = [] ∨ p.password_ = [] ∨ 255 < p.username_.length ∨ 255 < p.password_.length then
        some (b.setStatus .ECheckFail)
      else some ({ b with send_buf_ := authRequest p }.setStatus .EProxySocks5AuthReq)
    | .EProxySocks5AuthSucc =>
      some ({ b with send_buf_ := connSvrRequest p }.setStatus .EProxySocks5ConnSvrReq)
    | .EProxyConnSvrSucc =>
      if b.own.observer_ then
        let b := { b with send_buf_ := a.sendBuf }
        some (if a.onVerifySend then b else b.setStatus .ECheckFail)
      else some b
    | _ => some b
  onSend _ b := b
  onRecv a b :=
    let buf := b.recv_buf_
    match b.own.check_status_ with
    | .ECheckOK => some b
    | .EProxySocks5GreetReq =>
      if buf.length < 2 then some b
      else if buf.getD 0 0 ≠ kSocks5Version then some (b.setStatus .ECheckFail)
      else
        let b := { b with recv_buf_ := [] }
        if buf.getD 1 0 = kSocks5NoAuth then
          some ({ b with request_send_ := true }.setStatus .EProxySocks5AuthSucc)
        else if buf.getD 1 0 = kSocks5UsrNamePwdAuth then
          some ({ b with request_send_ := true }.setStatus .EProxySocks5GreetSucc)
        else some (b.setStatus .ECheckFail)
    | .EProxySocks5AuthReq =>
      if buf.length < 2 then some b
      else if buf.getD 0 0 ≠ kSocks5AuthVersion ∨ buf.getD 1 0 ≠ kSocks5RespStatus then
        some (b.setStatus .ECheckFail)
      else some ({ b with request_send_ := true, recv_buf_ := [] }.setStatus .EProxySocks5AuthSucc)
    | .EProxySocks5ConnSvrReq =>
      if connReplyShort buf then some b
      else if buf.getD 0 0 ≠ kSocks5Version ∨ buf.getD 1 0 ≠ kSocks5RespStatus then
        some (b.setStatus .ECheckFail)
      else some ({ b with request_send_ := true, recv_buf_ := [] }.setStatus (connected a b))
    | .EProxyConnSvrSucc => some (verifyRecv a b)
    | _ => some b

end CheckFsm
