import Coroserver.Bytes
import Mathlib.Data.List.Basic

/-! The incremental IAC decoder and the encoder helpers of
`include/telnet_protocol.hpp`. A `std::string` is its list of bytes; the
output parameters `data` and `events` of `Decoder::feed` are an accumulator
that every byte extends. -/

namespace Coroserver.Telnet

namespace Cmd

def se : UInt8 := 240
def sb : UInt8 := 250
def will : UInt8 := 251
def wont : UInt8 := 252
def doo : UInt8 := 253
def dont : UInt8 := 254
def iac : UInt8 := 255

end Cmd

def maxSubnegotiationSize : Nat := 1024

structure Negotiation where
  verb : UInt8
  option : UInt8
deriving DecidableEq

structure Subnegotiation where
  option : UInt8
  payload : Bytes
deriving DecidableEq

structure Command where
  code : UInt8
deriving DecidableEq

inductive Event where
  | negotiation (value : Negotiation)
  | subnegotiation (value : Subnegotiation)
  | command (value : Command)
deriving DecidableEq

inductive DecoderState where
  | data
  | cr
  | iac
  | verb
  | sbOption
  | sbData
  | sbIac
deriving DecidableEq

structure Decoder where
  state : DecoderState := .data
  verb : UInt8 := 0
  sbOption : UInt8 := 0
  sbPayload : Bytes := []

structure Output where
  data : Bytes := []
  events : List Event := []
deriving DecidableEq

def Output.pushData (output : Output) (c : UInt8) : Output :=
  { output with data := output.data ++ [c] }

def Output.pushEvent (output : Output) (event : Event) : Output :=
  { output with events := output.events ++ [event] }

variable (decoder : Decoder)

def Decoder.dataByte (c : UInt8) (output : Output) : Decoder × Output :=
  if c = Cmd.iac then
    ({ decoder with state := .iac }, output)
  else
    ({ decoder with state := if c = 13 then .cr else .data }, output.pushData c)

def Decoder.onIac (c : UInt8) (output : Output) : Decoder × Output :=
  if c = Cmd.iac then
    ({ decoder with state := .data }, output.pushData Cmd.iac)
  else if Cmd.will ≤ c ∧ c ≤ Cmd.dont then
    ({ decoder with verb := c, state := .verb }, output)
  else if c = Cmd.sb then
    ({ decoder with state := .sbOption }, output)
  else
    ({ decoder with state := .data }, output.pushEvent (.command ⟨c⟩))

def Decoder.sbPush (c : UInt8) : Decoder :=
  if decoder.sbPayload.length < maxSubnegotiationSize then
    { decoder with sbPayload := decoder.sbPayload ++ [c] }
  else
    decoder

def Decoder.feedByte (output : Output) (c : UInt8) : Decoder × Output :=
  match decoder.state with
  | .data => decoder.dataByte c output
  | .cr =>
    if c = 0 then ({ decoder with state := .data }, output) else decoder.dataByte c output
  | .iac => decoder.onIac c output
  | .verb =>
    ({ decoder with state := .data }, output.pushEvent (.negotiation ⟨decoder.verb, c⟩))
  | .sbOption => ({ decoder with sbOption := c, sbPayload := [], state := .sbData }, output)
  | .sbData =>
    if c = Cmd.iac then ({ decoder with state := .sbIac }, output)
    else (decoder.sbPush c, output)
  | .sbIac =>
    if c = Cmd.se then
      ({ decoder with sbPayload := [], state := .data },
        output.pushEvent (.subnegotiation ⟨decoder.sbOption, decoder.sbPayload⟩))
    else if c = Cmd.iac then
      ({ decoder.sbPush c with state := .sbData }, output)
    else
      ({ decoder with sbPayload := [], state := .data }, output.pushEvent (.command ⟨c⟩))

def Decoder.feed (output : Output) (input : Bytes) : Decoder × Output :=
  input.foldl (fun current c => current.1.feedByte current.2 c) (decoder, output)

def Decoder.feedAll (output : Output) (chunks : List Bytes) : Decoder × Output :=
  chunks.foldl (fun current chunk => current.1.feed current.2 chunk) (decoder, output)

def escapeIac : Bytes → Bytes
  | [] => []
  | c :: rest => if c = Cmd.iac then c :: c :: escapeIac rest else c :: escapeIac rest

def negotiation (verb option : UInt8) : Bytes := [Cmd.iac, verb, option]

def subnegotiation (option : UInt8) (payload : Bytes) : Bytes :=
  [Cmd.iac, Cmd.sb, option] ++ escapeIac payload ++ [Cmd.iac, Cmd.se]

end Coroserver.Telnet
