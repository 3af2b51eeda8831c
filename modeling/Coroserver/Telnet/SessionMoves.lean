import Coroserver.Telnet.Session

/-! Every step is one of the moves below. What a session keeps in all runs is shown
for each of them. -/

namespace Coroserver.Telnet.Session

inductive Move (opts : Options) (s : Session) : SessionEvent → Session → Prop where
  | written {writer failed out} (written : s.out.written writer failed = some (out, none)) :
      Move opts s (.written writer failed) { s with out }
  | flushed {writer failed out ok}
      (written : s.out.written writer failed = some (out, some ok)) :
      Move opts s (.written writer failed) ({ s with out }.sends writer (s.toSend writer))
  | replied {failed out ok user toClient received}
      (written : s.out.written .toConsole failed = some (out, some ok))
      (control : s.control = .relay user .replying toClient)
      (goesOn : received =
        ({ s with out }.sends .toConsole (s.toSend .toConsole)).toConsoleReceived) :
      Move opts s (.written .toConsole failed) (received.1.relay user received.2 toClient)
  | sentToClient {failed out ok user toConsole}
      (written : s.out.written .toClient failed = some (out, some ok))
      (control : s.control = .relay user toConsole .sending) :
      Move opts s (.written .toClient failed)
        (({ s with out }.toClientSent ok).1.relay user toConsole
          ({ s with out }.toClientSent ok).2)
  | returned {failed out ok} (written : s.out.written .toClient failed = some (out, some ok)) :
      Move opts s (.written .toClient failed) { s with out }
  | relayRead {user toClient} (control : s.control = .relay user .reading toClient) (result) :
      Move opts s (.read result)
        ((s.toConsoleRead result).1.relay user (s.toConsoleRead result).2 toClient)
  | consoleWritten {user out escape toClient}
      (control : s.control = .relay user (.writing out escape) toClient) (failed) :
      Move opts s (.consoleWritten failed)
        ((s.toConsoleWritten escape failed).1.relay user (s.toConsoleWritten escape failed).2
          toClient)
  | consoleRead {user toConsole} (control : s.control = .relay user toConsole .reading) (result) :
      Move opts s (.consoleRead result)
        ((s.toClientRead result).1.relay user toConsole (s.toClientRead result).2)
  | aborted {reader line} (control : s.control = .readLine reader line) :
      Move opts s (.read none) (s.lineAborted reader)
  | received {reader line} (control : s.control = .readLine reader line) (chunk) :
      Move opts s (.read (some chunk))
        ({ s with input := (s.input.receive chunk).1 }.sends .main (s.input.receive chunk).2)
  | typed {reader line rest c} (control : s.control = .readLine reader line)
      (pending : s.input.pending = c :: rest) :
      Move opts s .advance ({ s with input.pending := rest }.lineByte reader line c)
  | startRelay {user} (control : s.control = .connected user) :
      Move opts s .advance (s.startRelay user)
  | authenticated {attempt user} (control : s.control = .authenticate attempt user) (result) :
      Move opts s (.authenticated result) (authenticated opts s attempt user result)
  | groupChecked {attempt user} (control : s.control = .userInGroup attempt user) (result) :
      Move opts s (.userInGroup result) (groupChecked opts s attempt user result)
  | delayed {attempt} (control : s.control = .delay attempt) :
      Move opts s .delayed (s.login (attempt + 1) [ascii "Login incorrect\r\n"])
  | menu {user} (control : s.control = .loadConsoles user) (config) :
      Move opts s (.configuration config) (s.menu user (loadConsoles config))
  | connected {user entry} (control : s.control = .connect user entry) (failed) :
      Move opts s (.connected failed) (s.connected user entry failed)

variable {opts : Options} {s next : Session} {event : SessionEvent}

theorem move_of_answer (answered : answer opts s event = some next) : Move opts s event next := by
  revert answered
  fun_cases answer opts s event
  all_goals rintro ⟨⟩
  case case1 control => exact .aborted control
  case case2 control chunk _ => exact .received control chunk
  case case4 pending control => exact .typed control pending
  case case5 control => exact .startRelay control
  case case7 control => exact .authenticated control _
  case case9 control => exact .groupChecked control _
  case case11 control => exact .delayed control
  case case13 control => exact .menu control _
  case case15 control => exact .connected control _

theorem move_of_relayEvent {user : Bytes} {toConsole : ToConsole} {toClient : ToClient}
    (control : s.control = .relay user toConsole toClient)
    (relayed : s.relayEvent user toConsole toClient event = some next) :
    Move opts s event next := by
  revert relayed
  fun_cases relayEvent s user toConsole toClient event
  all_goals rintro ⟨⟩
  · exact .relayRead control _
  · exact .consoleWritten control _
  · exact .consoleRead control _

theorem move_of_sendReturned {writer : Coroutine} {failed ok : Bool} {out : Outbound Coroutine}
    (written : s.out.written writer failed = some (out, some ok)) :
    Move opts s (.written writer failed) ({ s with out }.sendReturned ok writer) := by
  cases writer with
  | main => exact .flushed written
  | toConsole =>
    unfold sendReturned
    dsimp only
    split
    · rename_i control
      split
      · exact .flushed written
      · exact .replied written control rfl
    · exact .flushed written
  | toClient =>
    unfold sendReturned
    dsimp only
    split
    · rename_i control
      exact .sentToClient written control
    · exact .returned written

theorem move_of_step (stepped : step opts s event = some next) : Move opts s event next := by
  revert stepped
  fun_cases Session.step opts s event with
  | case1 | case5 => exact nofun
  | case2 _ _ _ written =>
    rintro ⟨⟩
    exact .written written
  | case3 _ _ _ _ written =>
    rintro ⟨⟩
    exact move_of_sendReturned written
  | case4 => exact move_of_relayEvent (by assumption)
  | case6 => exact move_of_answer

end Coroserver.Telnet.Session
