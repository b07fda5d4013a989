import HttpExchange.Client
import HttpExchange.Session
import HttpExchange.Transport.Socket

set_option autoImplicit false

/-! # Connecting

The ways to get a connection that is up: the host of a target is resolved, its addresses are
tried in turn, those of IPv4 first, and the first that accepts is taken. A target that asks
for a secure connection is then refused, since there is no secure layer, and its socket is
closed again. `Client.connect` and `Session.connect` go on to build their handles; `dial`
gives the bare socket. -/

namespace HttpExchange

inductive Version
  | http11
  | http2
  deriving DecidableEq

/-- Certificates and keys for the secure layer. Nothing here looks inside. -/
structure SecureMaterial where
  rootCertificate : Option Bytes := none
  clientCertificate : Option Bytes := none
  privateKey : Option Bytes := none
  deriving DecidableEq

def SecureMaterial.isEmpty (m : SecureMaterial) : Bool :=
  m.rootCertificate.isNone && m.clientCertificate.isNone && m.privateKey.isNone

/-- The bound on waits when nothing else is chosen, in milliseconds. -/
def defaultTimeout : Nat := 10000

structure Options where
  version : Version := .http11
  /-- The bound on every wait, in milliseconds; 0 is no bound. -/
  timeout : Nat := defaultTimeout
  secure : Option SecureMaterial := none
  deriving DecidableEq

structure Network where
  /-- The addresses of a host name, if it has any. -/
  resolve : String → Option (List Address)
  /-- Whether a connection to the port of an address is accepted. -/
  accepts : Address → Nat → Bool

namespace Network

/-- The network of this host alone, where IPv4 literals are the only names and at most one
port accepts connections. -/
def loopback (listener : Option Nat) : Network where
  resolve name := (Address.ofLiteral? name.toList).map ([·])
  accepts address port := address == .loopback && listener == some port

/-- The name to resolve: the host without brackets around it. -/
def hostName (host : String) : String :=
  let opened := host.toList.dropWhile (· == '[')
  String.ofList (opened.reverse.dropWhile (· == ']')).reverse

/-- Connects to the first address of the host that accepts; IPv4 addresses are tried first. -/
def connect (net : Network) (host : String) (port timeout : Nat) : Except Fault Socket :=
  match net.resolve (hostName host) with
  | none => .error .invalidAddress
  | some addresses =>
      let candidates := addresses.filter (·.isV4) ++ addresses.filter (!·.isV4)
      match candidates.find? (net.accepts · port) with
      | none => .error .connectionRefused
      | some address =>
          .ok { peer := (address, port), patience := if timeout = 0 then none else some timeout }

end Network

/-- Connects to the target. There is no secure layer, so a target that asks for one is refused
once the connection is up. -/
def openStream (net : Network) (u : Uri) (port : Option Nat) (options : Options) :
    Except (Refusal Socket) Socket :=
  match net.connect u.host (u.effectivePort port) options.timeout with
  | .error _ => .error ⟨.connect, none⟩
  | .ok socket =>
      if u.scheme.isSecure then .error ⟨.secure, some (Transport.close socket).2⟩
      else .ok socket

def dial (net : Network) (uri : String) (port : Option Nat) (options : Options) :
    Except (Refusal Socket) Socket :=
  match Uri.parse uri with
  | .error e => .error ⟨e, none⟩
  | .ok u => openStream net u port options

/-- Connects to a target and builds a client. A client does not speak HTTP/2. -/
def Client.connect (net : Network) (uri : String) (port : Option Nat) (storage : Bytes)
    (options : Options) : Except (Refusal Socket) (Client Socket) :=
  if options.version ≠ .http11 then .error ⟨.parameter, none⟩
  else
    match Uri.parse uri with
    | .error e => .error ⟨e, none⟩
    | .ok u =>
        match u.target with
        | .error e => .error ⟨e, none⟩
        | .ok (host, path) =>
            match openStream net u port options with
            | .error refusal => .error refusal
            | .ok socket =>
                .ok (Client.ofTarget host path u.scheme.isSecure socket (.ofStorage storage))

/-- Connects to a target and starts a session with the engine. A session speaks HTTP/2,
whatever version the options name. -/
def Session.connect {ε β η : Type} [FrameEngine ε β] (net : Network) (uri : String)
    (port : Option Nat) (options : Options) (engine : ε) (handler : η) :
    Except (Refusal (Wire Socket ε)) (Session (Wire Socket ε) η) :=
  match Uri.parse uri with
  | .error e => .error ⟨e, none⟩
  | .ok u =>
      match openStream net u port { options with version := .http2 } with
      | .error ⟨e, socket⟩ => .error ⟨e, socket.map (⟨·, engine⟩)⟩
      | .ok socket => Session.new (β := β) ⟨socket, engine⟩ handler

end HttpExchange
