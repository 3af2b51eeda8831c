import Coroserver.Http.Target
import Coroserver.Telnet.Negotiator
import Coroserver.Telnet.Outbound
import Mathlib.Data.List.Sort

/-! `Session` of `examples/telnet_tls/telnet_tls_server.cpp`. The control says at
which suspension point `run` waits, and an event is what the environment answers
there. The coroutines are `run` itself and the two halves of a relay; each may be
suspended in `send`, with the texts it still has to send. The logins and the consoles
opened are recorded. -/

namespace Coroserver.Telnet

namespace Opt

def echo : UInt8 := 1
def suppressGoAhead : UInt8 := 3
def terminalType : UInt8 := 24
def naws : UInt8 := 31

end Opt

def ttypeSend : UInt8 := 1

def terminalTypeSendFrame : Bytes := subnegotiation Opt.terminalType [ttypeSend]

def escapeChar : UInt8 := 0x1d
def maxLoginAttempts : Nat := 3
def maxLineLength : Nat := 128

structure Options where
  group : Bytes := []

structure ConsoleEntry where
  name : Bytes
  socketPath : Bytes

inductive DeviceType where
  | uart
  | vuart
  | pty
  | ibmiEmulator
  | sshPty

def DeviceType.toString : DeviceType → String
  | .uart => "UART"
  | .vuart => "VUART"
  | .pty => "PTY"
  | .ibmiEmulator => "IBMI_EMULATOR"
  | .sshPty => "SSH_PTY"

structure DeviceConfig where
  name : Bytes
  socketPath : Bytes
  specific : DeviceType

/-- Consoles offered in the menu, from the devices of the configuration file if
it can be read. `std::ranges::sort` may order equal names either way. -/
def loadConsoles (config : Option (List DeviceConfig)) : List ConsoleEntry :=
  match config with
  | none => []
  | some devices =>
    let offered := devices.filter fun dev => dev.specific.toString != "IBMI_EMULATOR"
    (offered.map fun dev => ⟨dev.name, dev.socketPath⟩).insertionSort
      fun left right => left.name ≤ right.name

def menuText (consoles : List ConsoleEntry) : Bytes :=
  ascii "\r\nAvailable consoles:\r\n" ++
    (consoles.zipIdx 1).flatMap (fun numbered =>
      ascii "  " ++ ascii (toString numbered.2) ++ ascii ") " ++ numbered.1.name ++
        ascii "\r\n") ++
    ascii "Select console [1-" ++ ascii (toString consoles.length) ++ ascii "] or q to quit: "

def isDigit (c : UInt8) : Bool := 48 ≤ c && c ≤ 57

/-- `std::from_chars` for `size_t`: the value of the leading digits and what
follows them, unless there is none or it does not fit. -/
def fromChars (text : Bytes) : Option (Nat × Bytes) :=
  let digits := text.takeWhile isDigit
  let value := digits.foldl (fun value digit => 10 * value + (digit.toNat - 48)) 0
  if digits = [] ∨ UInt64.size ≤ value then none else some (value, text.dropWhile isDigit)

def chosen (line : Bytes) (consoles : List ConsoleEntry) : Option ConsoleEntry :=
  match fromChars line with
  | some (index, []) => if index < 1 then none else consoles[index - 1]?
  | _ => none

structure ClientInput where
  decoder : Decoder := {}
  negotiator : Negotiator
  pending : Bytes := []
  lastCr : Bool := false
  terminalTypeRequested : Bool := false

namespace ClientInput

def asksTerminalType (input : ClientInput) (message : Negotiation) : Bool :=
  message.verb == Cmd.will && message.option == Opt.terminalType &&
    input.negotiator.remoteEnabled Opt.terminalType && !input.terminalTypeRequested

/-- The new state and the texts that are sent in turn. Subnegotiations are only
logged, and the window size is recorded for nobody. -/
def onEvent (input : ClientInput) : Event → ClientInput × List Bytes
  | .negotiation message =>
    let handled := input.negotiator.handle message
    let input := { input with negotiator := handled.1 }
    let reply := if handled.2 = [] then [] else [handled.2]
    if input.asksTerminalType message then
      ({ input with terminalTypeRequested := true }, reply ++ [terminalTypeSendFrame])
    else (input, reply)
  | .subnegotiation _ | .command _ => (input, [])

def onEvents (input : ClientInput) : List Event → ClientInput × List Bytes
  | [] => (input, [])
  | event :: rest =>
    let first := input.onEvent event
    let others := first.1.onEvents rest
    (others.1, first.2 ++ others.2)

/-- Collapse CR LF to CR so a pty does not see two line ends. -/
def collapse (input : ClientInput) : Bytes → ClientInput
  | [] => input
  | c :: rest =>
    if c = 10 ∧ input.lastCr = true then { input with lastCr := false }.collapse rest
    else { input with lastCr := c = 13, pending := input.pending ++ [c] }.collapse rest

def receive (input : ClientInput) (chunk : Bytes) : ClientInput × List Bytes :=
  let fed := input.decoder.feed {} chunk
  let replied := { input with decoder := fed.1 }.onEvents fed.2.events
  (replied.1.collapse fed.2.data, replied.2)

end ClientInput

inductive LineEdit where
  | entered
  | aborted
  | erased (line : Bytes)
  | typed (line : Bytes)
  | ignored

def editLine (line : Bytes) (c : UInt8) : LineEdit :=
  if c = 13 ∨ c = 10 then .entered
  else if c = 0x03 ∨ c = 0x04 then .aborted
  else if c = 0x7f ∨ c = 0x08 then (if line = [] then .ignored else .erased line.dropLast)
  else if c < 0x20 ∨ 0x7f ≤ c ∨ maxLineLength ≤ line.length then .ignored
  else .typed (line ++ [c])

inductive Coroutine where
  | main
  | toConsole
  | toClient
deriving DecidableEq

inductive RelayEnd where
  | none
  | escape
  | consoleClosed
  | clientClosed
deriving DecidableEq

/-- Who reads a line, with the variables that are live there. -/
inductive LineReader where
  | user (attempt : Nat)
  | password (attempt : Nat) (user : Bytes)
  | selection (user : Bytes) (consoles : List ConsoleEntry)

def LineReader.echo : LineReader → Bool
  | .user _ | .selection _ _ => true
  | .password _ _ => false

inductive ToConsole where
  | reading
  | replying
  | writing (out : Bytes) (escape : Bool)
  | returned
deriving DecidableEq

inductive ToClient where
  | reading
  | sending
  | returned
deriving DecidableEq

inductive Control where
  | readLine (reader : LineReader) (line : Bytes)
  | authenticate (attempt : Nat) (user : Bytes)
  | userInGroup (attempt : Nat) (user : Bytes)
  | delay (attempt : Nat)
  | loadConsoles (user : Bytes)
  | connect (user : Bytes) (entry : ConsoleEntry)
  | connected (user : Bytes)
  | relay (user : Bytes) (toConsole : ToConsole) (toClient : ToClient)
  | finished

inductive Record where
  | entered (attempt : Nat) (user : Bytes)
  | authenticate (attempt : Nat) (user : Bytes)
  | authenticated (attempt : Nat) (user : Bytes) (result : Bool)
  | userInGroup (user group : Bytes) (result : Bool)
  | bridge (user : Bytes) (entry : ConsoleEntry)

inductive SessionEvent where
  | read (result : Option Bytes)
  /-- `run` goes on without being suspended: it takes a pending byte, or starts
  the relay. -/
  | advance
  | authenticated (result : Bool)
  | userInGroup (result : Bool)
  | delayed
  | configuration (config : Option (List DeviceConfig))
  | connected (failed : Bool)
  | consoleRead (result : Option Bytes)
  | consoleWritten (failed : Bool)
  | written (writer : Coroutine) (failed : Bool)

structure Session where
  input : ClientInput
  out : Outbound Coroutine := {}
  toSend : Coroutine → List Bytes := fun _ => []
  relayEnd : RelayEnd := .none
  control : Control := .finished
  history : List Record := []

namespace Session

/-- Consecutive calls of `send` up to the one that suspends the caller, and the
texts that are left. -/
def flush (out : Outbound Coroutine) (caller : Coroutine) :
    List Bytes → Outbound Coroutine × List Bytes
  | [] => (out, [])
  | data :: rest =>
    match out.send caller data with
    | (sent, some _) => flush sent caller rest
    | (sent, none) => (sent, rest)

variable (s : Session)

def sends (caller : Coroutine) (texts : List Bytes) : Session :=
  let flushed := flush s.out caller texts
  { s with out := flushed.1, toSend := Function.update s.toSend caller flushed.2 }

def suspended (coroutine : Coroutine) : Bool :=
  s.out.inFlight.any fun entry => entry.1 = coroutine

def record (entry : Record) : Session :=
  { s with history := s.history ++ [entry] }

def goto (control : Control) : Session := { s with control }

def makePolicy : Policy where
  localOptions option := option = Opt.echo || option = Opt.suppressGoAhead
  remoteOptions option :=
    option = Opt.suppressGoAhead || option = Opt.naws || option = Opt.terminalType

def initialRequests : List (UInt8 × UInt8) :=
  [(Cmd.will, Opt.echo), (Cmd.will, Opt.suppressGoAhead), (Cmd.doo, Opt.suppressGoAhead),
    (Cmd.doo, Opt.naws), (Cmd.doo, Opt.terminalType)]

def initialNegotiation (negotiator : Negotiator) : Negotiator × Bytes :=
  initialRequests.foldl
    (fun current request =>
      let requested := current.1.request request.1 request.2
      (requested.1, current.2 ++ requested.2))
    (negotiator, [])

def login (attempt : Nat) (texts : List Bytes) : Session :=
  if attempt < maxLoginAttempts then
    (s.sends .main (texts ++ [ascii "\r\nlogin: "])).goto (.readLine (.user attempt) [])
  else (s.sends .main texts).goto .finished

def start : Session :=
  let negotiated := initialNegotiation { policy := makePolicy }
  login { input := { negotiator := negotiated.1 } } 0 [negotiated.2]

def lineEntered (line : Bytes) : LineReader → Session
  | .user attempt =>
    ((s.sends .main [ascii "\r\n", ascii "Password: "]).goto
      (.readLine (.password attempt line) [])).record (.entered attempt line)
  | .password attempt user =>
    if user = [] then (s.sends .main [ascii "\r\n"]).goto (.delay attempt)
    else ((s.sends .main [ascii "\r\n"]).goto (.authenticate attempt user)).record
      (.authenticate attempt user)
  | .selection user consoles =>
    if line = ascii "q" ∨ line = ascii "quit" ∨ line = ascii "exit" then
      (s.sends .main [ascii "\r\n", ascii "\r\nGoodbye.\r\n"]).goto .finished
    else
      match chosen line consoles with
      | none =>
        (s.sends .main [ascii "\r\n", ascii "Invalid selection.\r\n"]).goto
          (.loadConsoles user)
      | some entry =>
        ((s.sends .main [ascii "\r\n"]).goto (.connect user entry)).record
          (.bridge user entry)

def lineAborted : LineReader → Session
  | .user _ | .password _ _ => s.goto .finished
  | .selection _ _ => (s.sends .main [ascii "\r\nGoodbye.\r\n"]).goto .finished

def lineByte (reader : LineReader) (line : Bytes) (c : UInt8) : Session :=
  match editLine line c with
  | .entered => s.lineEntered line reader
  | .aborted => s.lineAborted reader
  | .erased shorter =>
    (s.sends .main (if reader.echo then [[8, 32, 8]] else [])).goto (.readLine reader shorter)
  | .typed longer =>
    (s.sends .main (if reader.echo then [[c]] else [])).goto (.readLine reader longer)
  | .ignored => s

def authenticated (opts : Options) (s : Session) (attempt : Nat) (user : Bytes)
    (result : Bool) : Session :=
  let next : Control :=
    if result = false then .delay attempt
    else if opts.group = [] then .loadConsoles user
    else .userInGroup attempt user
  (s.goto next).record (.authenticated attempt user result)

def groupChecked (opts : Options) (s : Session) (attempt : Nat) (user : Bytes)
    (result : Bool) : Session :=
  let next : Control := if result then .loadConsoles user else .delay attempt
  (s.goto next).record (.userInGroup user opts.group result)

variable (user : Bytes)

def menu (consoles : List ConsoleEntry) : Session :=
  if consoles = [] then
    (s.sends .main [ascii "\r\nNo consoles available.\r\n", ascii "\r\nGoodbye.\r\n"]).goto
      .finished
  else (s.sends .main [menuText consoles]).goto (.readLine (.selection user consoles) [])

def connected (s : Session) (user : Bytes) (entry : ConsoleEntry) (failed : Bool) : Session :=
  if failed then
    (s.sends .main [ascii "Cannot connect to console '" ++ entry.name ++ ascii "'.\r\n"]).goto
      (.loadConsoles user)
  else
    (s.sends .main [ascii "\r\nConnected to '" ++ entry.name ++
      ascii "'. Press Ctrl-] to return to the menu.\r\n"]).goto (.connected user)

/-- `end_` keeps the first reason for which a relay ends. -/
def endRelay (reason : RelayEnd) : Session :=
  if s.relayEnd = .none then { s with relayEnd := reason } else s

/-- `toConsole` takes the pending input up to the escape character. -/
def forward : Session × ToConsole :=
  let out := s.input.pending.takeWhile (· ≠ escapeChar)
  let escape := s.input.pending.contains escapeChar
  let taken := { s with input.pending := [] }
  if out ≠ [] then (taken, .writing out escape)
  else if escape then (taken.endRelay .escape, .returned)
  else (taken, .reading)

def toConsoleHead : Session × ToConsole :=
  if s.relayEnd ≠ .none then (s, .returned)
  else if s.input.pending = [] then (s, .reading)
  else s.forward

def toConsoleReceived : Session × ToConsole :=
  if s.input.pending = [] then (s, .reading)
  else if s.relayEnd ≠ .none then (s, .returned)
  else s.forward

def toConsoleRead (result : Option Bytes) : Session × ToConsole :=
  match result with
  | none => (s.endRelay .clientClosed, .returned)
  | some chunk =>
    let received := s.input.receive chunk
    let replied := { s with input := received.1 }.sends .toConsole received.2
    if replied.suspended .toConsole then (replied, .replying) else replied.toConsoleReceived

def toConsoleWritten (escape failed : Bool) : Session × ToConsole :=
  if failed then (s.endRelay .consoleClosed, .returned)
  else if escape then (s.endRelay .escape, .returned)
  else s.toConsoleHead

def toClientHead : Session × ToClient :=
  if s.relayEnd ≠ .none then (s, .returned) else (s, .reading)

def toClientSent (ok : Bool) : Session × ToClient :=
  if ok = false then ({ s with relayEnd := .clientClosed }, .returned) else s.toClientHead

def toClientRead (result : Option Bytes) : Session × ToClient :=
  match result with
  | none => (s.endRelay .consoleClosed, .returned)
  | some chunk =>
    if s.relayEnd ≠ .none then (s, .returned)
    else
      match s.out.send .toClient (escapeIac chunk) with
      | (sent, some ok) => { s with out := sent }.toClientSent ok
      | (sent, none) => ({ s with out := sent }, .sending)

/-- `bridge` after both halves of the relay have returned, and the rest of the
loop of `run`. -/
def bridgeReturned : Session :=
  match s.relayEnd with
  | .none => s.goto (.loadConsoles user)
  | .escape => (s.sends .main [ascii "\r\n"]).goto (.loadConsoles user)
  | .consoleClosed =>
    (s.sends .main [ascii "\r\n[Console closed]\r\n"]).goto (.loadConsoles user)
  | .clientClosed => s.goto .finished

def relay (s : Session) (user : Bytes) (toConsole : ToConsole) (toClient : ToClient) :
    Session :=
  if toConsole = .returned ∧ toClient = .returned then s.bridgeReturned user
  else s.goto (.relay user toConsole toClient)

/-- Both halves run to their first suspension, `toConsole` before `toClient`. -/
def startRelay : Session :=
  let toConsole := { s with relayEnd := .none }.toConsoleHead
  let toClient := toConsole.1.toClientHead
  toClient.1.relay user toConsole.2 toClient.2

/-- A suspended `send` of a coroutine has returned: it goes on with the texts it
still has to send, and `toConsole` with what it has read. -/
def sendReturned (ok : Bool) : Coroutine → Session
  | .main => s.sends .main (s.toSend .main)
  | .toConsole =>
    let flushed := s.sends .toConsole (s.toSend .toConsole)
    match s.control with
    | .relay user .replying toClient =>
      if flushed.suspended .toConsole then flushed
      else
        let received := flushed.toConsoleReceived
        received.1.relay user received.2 toClient
    | _ => flushed
  | .toClient =>
    match s.control with
    | .relay user toConsole .sending =>
      let sent := s.toClientSent ok
      sent.1.relay user toConsole sent.2
    | _ => s

def answer (opts : Options) (s : Session) : SessionEvent → Option Session
  | .read result =>
    match s.control, s.input.pending with
    | .readLine reader _, [] =>
      match result with
      | none => some (s.lineAborted reader)
      | some chunk =>
        let received := s.input.receive chunk
        some ({ s with input := received.1 }.sends .main received.2)
    | _, _ => none
  | .advance =>
    match s.control, s.input.pending with
    | .readLine reader line, c :: rest =>
      some ({ s with input.pending := rest }.lineByte reader line c)
    | .connected user, _ => some (s.startRelay user)
    | _, _ => none
  | .authenticated result =>
    match s.control with
    | .authenticate attempt user => some (authenticated opts s attempt user result)
    | _ => none
  | .userInGroup result =>
    match s.control with
    | .userInGroup attempt user => some (groupChecked opts s attempt user result)
    | _ => none
  | .delayed =>
    match s.control with
    | .delay attempt => some (s.login (attempt + 1) [ascii "Login incorrect\r\n"])
    | _ => none
  | .configuration config =>
    match s.control with
    | .loadConsoles user => some (s.menu user (Telnet.loadConsoles config))
    | _ => none
  | .connected failed =>
    match s.control with
    | .connect user entry => some (s.connected user entry failed)
    | _ => none
  | .consoleRead _ | .consoleWritten _ | .written _ _ => none

def relayEvent (toConsole : ToConsole) (toClient : ToClient) : SessionEvent → Option Session
  | .read result =>
    match toConsole with
    | .reading =>
      let read := s.toConsoleRead result
      some (read.1.relay user read.2 toClient)
    | .replying | .writing _ _ | .returned => none
  | .consoleWritten failed =>
    match toConsole with
    | .writing _ escape =>
      let written := s.toConsoleWritten escape failed
      some (written.1.relay user written.2 toClient)
    | .reading | .replying | .returned => none
  | .consoleRead result =>
    match toClient with
    | .reading =>
      let read := s.toClientRead result
      some (read.1.relay user toConsole read.2)
    | .sending | .returned => none
  | _ => none

def step (opts : Options) (s : Session) (event : SessionEvent) : Option Session :=
  match event with
  | .written writer failed =>
    match s.out.written writer failed with
    | none => none
    | some (out, none) => some { s with out }
    | some (out, some ok) => some ({ s with out }.sendReturned ok writer)
  | event =>
    match s.control with
    | .relay user toConsole toClient => s.relayEvent user toConsole toClient event
    | _ => if s.suspended .main then none else answer opts s event

end Session

end Coroserver.Telnet
