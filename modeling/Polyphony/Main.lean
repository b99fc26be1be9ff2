import Polyphony.CommandLine
import Polyphony.Player

open Polyphony

def complain : List String → IO UInt32
  | [] => return 1
  | fault :: causes => do
    IO.eprintln ("Error: " ++ fault)
    for cause in causes do
      IO.eprintln ("Caused by: " ++ cause)
    return 1

def main (args : List String) : IO UInt32 := do
  match CommandLine.read args with
  | .error f => complain f.chain
  | .ok .help =>
    IO.println CommandLine.usage
    return 0
  | .ok (.play c) =>
    match c.session with
    | .error f => complain (PlayFault.ofFailure f).chain
    | .ok s =>
      match Player.ofDevice? s c.voices .missing { limit := some .info } {} with
      | .error f => complain f.chain
      | .ok _ => return 0
