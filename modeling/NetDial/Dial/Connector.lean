import NetDial.Dial.Attempt

/-!
# Connectors

A connector says what comes of connecting to an address: after some time, or
never, a connection or an error. Two calls may come to different ends although
they are to one address. An attempt is a call of the connector that is cut off at
the deadline, with a timeout for an error.

**Results.**
* `attempt_finish_le`: an attempt with a deadline ends at it or before.
-/
namespace NetDial

/-- What comes of connecting: without a delay nothing ever does, and without
an error it is a connection. -/
structure Connecting where
  delay : Option Nat
  error : Option Error
  deriving DecidableEq, Repr

namespace Connecting

/-- Fails at once. -/
def failed (e : Error) : Connecting :=
  ⟨some 0, some e⟩

/-- Never comes to an end. -/
def never : Connecting :=
  ⟨none, none⟩

end Connecting

/-- Establishes connections. The calls of a dial are numbered, from 0 on. -/
structure Connector where
  name : Text
  connect : (call : Nat) → Network → NetAddr → ConnectOptions → Connecting

namespace Connector

/-- Denies every connection. -/
def deny : Connector :=
  ⟨"DenyConnector".toList, fun _ _ _ _ => .failed (.root .connectDenied)⟩

/-! ## The sockets of the host -/

/-- The error of a local address that is no address of a socket. -/
def localSocketError? (options : ConnectOptions) : Option Error :=
  match options.localAddr with
  | none => none
  | some a => if a.toSocketAddr?.isSome then none else some (.root (.kindMismatch ⟨.stream, a.kind⟩))

/-- The error of a local address that is no path. -/
def localPathError? (options : ConnectOptions) : Option Error :=
  match options.localAddr with
  | none => none
  | some a => if a.path?.isSome then none else some (.root (.kindMismatch ⟨.localPath, a.kind⟩))

/-- The error of an address that is no address of a socket. -/
def remoteSocketError? (addr : NetAddr) : Option Error :=
  if addr.toSocketAddr?.isSome then none else some (.root (.kindMismatch ⟨.stream, addr.kind⟩))

/-- The error of an address that is no path. -/
def remotePathError? (addr : NetAddr) : Option Error :=
  if addr.path?.isSome then none else some (.root (.kindMismatch ⟨.localPath, addr.kind⟩))

/-- The error of a network whose protocol is missing or not known. -/
def protocolError? (n : Network) : Option Error :=
  match n.protocolNumber with
  | .error e => some (.root (.unknownNetwork e))
  | .ok none => some (.root .missingProtocol)
  | .ok (some _) => none

/-- What is wrong with an attempt before a socket is used. -/
def refusal? (n : Network) (addr : NetAddr) (options : ConnectOptions) : Option Error :=
  match n with
  | .tcp _ | .udp _ => (remoteSocketError? addr).or (localSocketError? options)
  | .ip .. => (remoteSocketError? addr).or (protocolError? n)
  | .unix .stream => remotePathError? addr
  | .unix .datagram => (remotePathError? addr).or (localPathError? options)
  | .unix .seqPacket => some (.root (.unsupportedNetwork n))

/-- Connects with the sockets of the host, whose part is `sockets`, after what
can be checked without them. -/
def system (sockets : Network → NetAddr → ConnectOptions → Connecting) : Connector :=
  ⟨"SystemConnector".toList, fun _ n addr options =>
    match refusal? n addr options with
    | some e => .failed e
    | none => sockets n addr options⟩

/-! ## Plans -/

/-- What a plan goes by: the IP address without zone and port, or the path. -/
def planKey (addr : NetAddr) : Text :=
  match addr with
  | .localPath path => path
  | .stream x _ | .datagram x _ | .rawIp x => x.ip.text

/-- Connects as a plan says; an address that is not in it fails at once. -/
def plan (entries : List (Text × Connecting)) : Connector :=
  ⟨"Plan".toList, fun _ _ addr _ =>
    (entries.lookup (planKey addr)).getD
      (.failed (.ofText ("no plan for ".toList ++ addr.text)))⟩

/-! ## Attempts -/

/-- The attempt that starts now with a call, if it ever ends. What ends exactly at
the deadline is in time. -/
def attempt? (c : Connector) (call : Nat) (n : Network) (options : ConnectOptions) (now : Nat)
    (addr : NetAddr) : Option Attempt :=
  let result := c.connect call n addr options
  match result.delay, options.deadline with
  | none, none => none
  | none, some t => some ⟨n, addr, now, t, some (.root .timeout)⟩
  | some d, none => some ⟨n, addr, now, now + d, result.error⟩
  | some d, some t =>
    if now + d ≤ t then some ⟨n, addr, now, now + d, result.error⟩
    else some ⟨n, addr, now, t, some (.root .timeout)⟩

theorem attempt_finish_le {c : Connector} {call : Nat} {n : Network} {options : ConnectOptions}
    {now t : Nat} {addr : NetAddr} {a : Attempt} (h : c.attempt? call n options now addr = some a)
    (ht : options.deadline = some t) : a.finish ≤ t := by
  unfold attempt? at h
  simp only [ht] at h
  split at h
  · cases h
  · rename_i h2; cases h; cases h2; exact Nat.le_refl _
  · rename_i h2; cases h2
  · rename_i h2
    cases h2
    split at h
    · cases h; assumption
    · cases h; exact Nat.le_refl _

end Connector
end NetDial
