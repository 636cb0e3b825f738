/-
The start of the server (`main` of `src/server_main.cc`).

`main` ignores what `Parse` returns, and starts the server when the configuration has a port. `Parse` puts the port into
the configuration when it reads it, and can still return false for what comes after. So a configuration that is rejected
is without a port exactly when none was read before the parse stopped (`rejected_unusable_iff`).

- `serverMain_of_parse`: `main` on a file that `Parse` returns on.
- `rejected_served`: a block that is closed twice, and served.
-/
import BlogServer.Config.Port
import BlogServer.Dispatch.Dispatcher

namespace BlogServer.Dispatch

open BlogServer.Byte BlogServer.Config

/-! ## `main` -/

/-- `Parse` of a file; `none` is a file that cannot be opened -/
def parseFile (config : NginxConfig) : Option Bytes → Except Fault (Bool × NginxConfig)
  | none => .ok (false, config)
  | some text => parse config text

/-- how `main` goes on until it serves -/
inductive Start where
  | usage
  /-- `Parse` does not return -/
  | fault (fault : Fault)
  | noPort
  /-- the constructor of `request_dispatcher` throws -/
  | exception
  /-- the server is made with this port -/
  | server (portNumber : ℤ) (rd : Dispatcher)

/-- `main`, on the files of the system -/
def serverMain (files : Bytes → Option Bytes) : List Bytes → Start
  | [_, fileName] =>
    match parseFile .fresh (files fileName) with
    | .error fault => .fault fault
    -- what `Parse` returns is not looked at
    | .ok (_, config) =>
      if config.portNumber < 0 then .noPort
      else
        match Dispatcher.init config with
        | none => .exception
        | some rd => .server config.portNumber rd
  | _ => .usage

theorem serverMain_of_parse (files : Bytes → Option Bytes) (program fileName : Bytes) {text : Bytes} {accepted : Bool}
    {config : NginxConfig} (hfile : files fileName = some text) (hparse : parse .fresh text = .ok (accepted, config)) :
    serverMain files [program, fileName] =
      if config.portNumber < 0 then .noPort
      else
        match Dispatcher.init config with
        | none => .exception
        | some rd => .server config.portNumber rd := by
  rw [serverMain, hfile, parseFile, hparse]

/-! ## Rejected configurations -/

/-- **What a rejected configuration leaves behind.** When `Parse` returns false, the configuration is without a port,
and `main` ends for want of one, exactly when no port was read before the parse stopped: among the tokens that the check
of the transitions lets it reach, no port statement has a number from 0 to 65535. -/
theorem rejected_unusable_iff (files : Bytes → Option Bytes) (program fileName : Bytes) {text : Bytes}
    {config : NginxConfig} (hfile : files fileName = some text)
    (hparse : parse .fresh text = .ok (false, config)) :
    (config.portNumber < 0 ∧ serverMain files [program, fileName] = .noPort) ↔
      ¬ ∃ us t vs, tokens text = us ++ t :: vs ∧ Viable us ∧ (expectsAfter us).awaited = some .serverPort ∧
        isValidPortNum t.2 = some true := by
  have hmain : (config.portNumber < 0 ∧ serverMain files [program, fileName] = .noPort) ↔ config.portNumber < 0 := by
    refine ⟨And.left, fun hport => ⟨hport, ?_⟩⟩
    rw [serverMain_of_parse files program fileName hfile hparse, if_pos hport]
  have hport := turns_port (tokens_stream text) (e := {}) rfl (nested_initial .fresh) (tokens_ne_start text)
    (turns_of_parse hparse)
  have hfresh : ¬ (0 : ℤ) ≤ (ParseState.initial .fresh).config.portNumber := by decide
  rw [hmain, ← not_le, hport, or_iff_right hfresh]
  exact Iff.rfl

/-- what a run of `Parse` shows of the configuration it rejects -/
theorem exists_of_rejected {text : Bytes} {P : NginxConfig → Prop} [DecidablePred P]
    (h : (match parse .fresh text with | .ok (false, config) => decide (P config) | _ => false) = true) :
    ∃ config, parse .fresh text = .ok (false, config) ∧ P config := by
  cases hparse : parse .fresh text with
  | error fault =>
    rw [hparse] at h
    cases h
  | ok result =>
    obtain ⟨accepted, config⟩ := result
    rw [hparse] at h
    cases accepted with
    | true => cases h
    | false => exact ⟨config, rfl, of_decide_eq_true h⟩

/-- a port statement that comes after a block is closed twice -/
abbrev lateText : Bytes := ascii "a \x7b \x7d \x7d port 80;"

theorem rejected_unusable_late :
    ∃ config,
      parse .fresh lateText = .ok (false, config) ∧
        serverMain (fun _ => some lateText) [ascii "server", ascii "conf"] = .noPort ∧
          ¬ ∃ us t vs, tokens lateText = us ++ t :: vs ∧ Viable us ∧ (expectsAfter us).awaited = some .serverPort ∧
            isValidPortNum t.2 = some true := by
  have hrun : ∃ config, parse .fresh lateText = .ok (false, config) ∧ config.portNumber < 0 :=
    exists_of_rejected (by decide +kernel)
  obtain ⟨config, hparse, hport⟩ := hrun
  have hmain : serverMain (fun _ => some lateText) [ascii "server", ascii "conf"] = .noPort :=
    (serverMain_of_parse (fun _ => some lateText) _ _ rfl hparse).trans (if_pos hport)
  exact ⟨config, hparse, hmain, (rejected_unusable_iff (fun _ => some lateText) _ _ rfl hparse).1 ⟨hport, hmain⟩⟩

/-- a block is closed that is not open -/
abbrev unopenedText : Bytes := ascii "port 8080; \x7d"

/-- it is rejected, and the server serves on the port before it -/
theorem rejected_served :
    ∃ config rd,
      parse .fresh unopenedText = .ok (false, config) ∧
        serverMain (fun _ => some unopenedText) [ascii "server", ascii "conf"] = .server 8080 rd := by
  have hrun : ∃ config, parse .fresh unopenedText = .ok (false, config) ∧
      config.portNumber = 8080 ∧ (Dispatcher.init config).isSome = true :=
    exists_of_rejected (by decide +kernel)
  obtain ⟨config, hparse, hport, hinit⟩ := hrun
  obtain ⟨rd, hrd⟩ := Option.isSome_iff_exists.1 hinit
  refine ⟨config, rd, hparse, (serverMain_of_parse (fun _ => some unopenedText) _ _ rfl hparse).trans ?_⟩
  rw [hport, if_neg (by decide), hrd]

end BlogServer.Dispatch
