import Kbox.Telnet.Steps

/-!
# From the network to the screen

The telnet commands in the input are read by a small automaton, and what the emulator
is given depends on the bytes that arrive alone: not on the calls they are cut into, on
what is written in between or on what has been negotiated.
-/

namespace Kbox.Telnet

open Kbox.Framework

/-! ## §1  The automaton -/

inductive Decoder where
  | text
  | command
  | option (command : JByte)
  | parameters
deriving DecidableEq, Repr

def IsNegotiation (c : JByte) : Prop := c = cmdWill ∨ c = cmdWont ∨ c = cmdDo ∨ c = cmdDont

instance (c : JByte) : Decidable (IsNegotiation c) := inferInstanceAs (Decidable (_ ∨ _))

namespace Decoder

def next : Decoder → JByte → Decoder
  | .text, b => if b = iac then .command else .text
  | .command, b =>
      if b = cmdSb then .parameters else if IsNegotiation b then .option b else .text
  | .option _, _ => .text
  | .parameters, b => if b = cmdSe then .text else .parameters

/-- What the emulator is given for a byte behind `last`. -/
def shows : Decoder → JByte → JByte → List JByte
  | .text, last, b =>
      if b = iac ∨ b = cmdGa ∨ b = nul ∧ last = cr then [] else [b]
  | .command, _, b =>
      if b = cmdEc then cmdLeft ++ cmdErase
      else if b = cmdEl then cmdEraseLine
      else if b = iac then [iac]
      else []
  | .option _, _, _ => []
  | .parameters, _, _ => []

/-- What the emulator is given for all of `bytes`. -/
def screen : Decoder → JByte → List JByte → List JByte
  | _, _, [] => []
  | d, last, b :: bytes => d.shows last b ++ (d.next b).screen b bytes

/-- The options negotiated in `bytes`. -/
def options : Decoder → List JByte → List (JByte × JByte)
  | _, [] => []
  | .option c, b :: bytes => (c, b) :: Decoder.text.options bytes
  | d, b :: bytes => (d.next b).options bytes

end Decoder

namespace TelnetSession

def decoder (s : TelnetSession) : Decoder :=
  if s.mInTelnetCommand then
    if s.mMultipleParameters then .parameters
    else if IsNegotiation s.mTelnetCommand then .option s.mTelnetCommand
    else .command
  else .text

/-- The bytes of the network that have reached the emulator. -/
def screen (s : TelnetSession) : List JByte :=
  s.shown.flatMap fun call => if let .network bytes := call then bytes else []

/-- Between commands nothing is left of the last one. -/
def Settled (s : TelnetSession) : Prop :=
  s.mInTelnetCommand = false → s.mMultipleParameters = false ∧ s.mTelnetCommand = 0

end TelnetSession

open TelnetSession

variable {s t : TelnetSession}

/-! ## §2  The session reads like the automaton -/

/-- The fields the automaton is read off. -/
structure SameCommand (s t : TelnetSession) : Prop where
  inCommand : t.mInTelnetCommand = s.mInTelnetCommand
  command : t.mTelnetCommand = s.mTelnetCommand
  parameters : t.mMultipleParameters = s.mMultipleParameters

theorem SameCommand.decoder (h : SameCommand s t) : t.decoder = s.decoder := by
  unfold TelnetSession.decoder
  rw [h.inCommand, h.command, h.parameters]

theorem SameCommand.settled (h : SameCommand s t) (hs : Settled s) : Settled t := by
  unfold Settled
  rw [h.inCommand, h.command, h.parameters]
  exact hs

theorem sameCommand_accept (data : List JByte) : SameCommand s (s.accept data) := by
  unfold accept queued
  split_ifs <;> exact ⟨rfl, rfl, rfl⟩

theorem sameCommand_echoLocally (data : List JByte) : SameCommand s (s.echoLocally data) := by
  unfold echoLocally
  split_ifs <;> exact ⟨rfl, rfl, rfl⟩

theorem sameCommand_written (data echo : List JByte) :
    SameCommand s ((s.accept data).echoLocally echo) :=
  ⟨(sameCommand_echoLocally echo).inCommand.trans (sameCommand_accept data).inCommand,
    (sameCommand_echoLocally echo).command.trans (sameCommand_accept data).command,
    (sameCommand_echoLocally echo).parameters.trans (sameCommand_accept data).parameters⟩

theorem sameCommand_goAhead : SameCommand s s.goAhead := by
  unfold goAhead queued
  split_ifs <;> exact ⟨rfl, rfl, rfl⟩

theorem sameCommand_echoBack (b : JByte) : SameCommand s (s.echoBack b) := by
  unfold echoBack
  split_ifs <;> exact ⟨rfl, rfl, rfl⟩

theorem decoder_finished : s.finishTelnetCommand.decoder = .text := rfl

theorem settled_finished : Settled s.finishTelnetCommand := fun _ => ⟨rfl, rfl⟩

/-- The handler of an option. -/
def handleOption (c b : JByte) (s : TelnetSession) : TelnetSession :=
  if c = cmdWill then s.handleWillOption b
  else if c = cmdWont then s.handleWontOption b
  else if c = cmdDo then s.handleDoOption b
  else s.handleDontOption b

/-- A byte, by the state of the automaton. -/
inductive Reads (s : TelnetSession) (b : JByte) : TelnetSession → Prop where
  | iac : s.decoder = .text → b = iac → Reads s b s.startCommand
  | goAhead : s.decoder = .text → b = cmdGa → Reads s b s.goAhead
  | nul : s.decoder = .text → b = nul ∧ s.mLastInputByteProcessed = cr → Reads s b (s.echoBack 0)
  | text : s.decoder = .text → b ≠ Telnet.iac → b ≠ cmdGa →
      ¬ (b = Telnet.nul ∧ s.mLastInputByteProcessed = cr) →
      Reads s b ((s.superProcessInput [b]).echoBack b)
  | plain : s.decoder = .command → Reads s b (s.doPlainCommand b)
  | option {c : JByte} : s.decoder = .option c → IsNegotiation c → Reads s b (handleOption c b s)
  | lastParameter : s.decoder = .parameters → b = cmdSe → Reads s b s.finishTelnetCommand
  | parameter : s.decoder = .parameters → b ≠ cmdSe → Reads s b s

theorem reads_receive (b : JByte) : ∃ t, Reads s b t ∧ s.receive b = t.setLast b := by
  refine ⟨_, ?_, rfl⟩
  unfold received
  by_cases hcommand : s.mInTelnetCommand = true
  · rw [if_pos hcommand]
    unfold doTelnetCommand
    by_cases hmulti : s.mMultipleParameters = true
    · have hd : s.decoder = .parameters := by
        unfold decoder
        rw [if_pos hcommand, if_pos hmulti]
      rw [if_pos hmulti]
      split_ifs with hse
      · exact .lastParameter hd hse
      · exact .parameter hd hse
    rw [if_neg hmulti]
    by_cases hnegotiation : IsNegotiation s.mTelnetCommand
    · have hd : s.decoder = .option s.mTelnetCommand := by
        unfold decoder
        rw [if_pos hcommand, if_neg hmulti, if_pos hnegotiation]
      have hreads := Reads.option (b := b) hd hnegotiation
      unfold handleOption at hreads
      split_ifs at hreads ⊢ with hwill hwont hdo hdont
      all_goals first | exact hreads | skip
      rcases hnegotiation with h | h | h | h
      · exact absurd h hwill
      · exact absurd h hwont
      · exact absurd h hdo
      · exact absurd h hdont
    · have hd : s.decoder = .command := by
        unfold decoder
        rw [if_pos hcommand, if_neg hmulti, if_neg hnegotiation]
      have hplain := Reads.plain (b := b) hd
      unfold IsNegotiation at hnegotiation
      push Not at hnegotiation
      obtain ⟨hwill, hwont, hdo, hdont⟩ := hnegotiation
      rw [if_neg hwill, if_neg hwont, if_neg hdo, if_neg hdont]
      exact hplain
  · have hd : s.decoder = .text := by
      unfold decoder
      rw [if_neg hcommand]
    rw [if_neg hcommand]
    split_ifs with hiac hga hnul
    · exact .iac hd hiac
    · exact .goAhead hd hga
    · exact .nul hd hnul
    · exact .text hd hiac hga hnul

theorem setLast_decoder (b : JByte) : (s.setLast b).decoder = s.decoder := rfl

theorem decoder_of_command (hin : s.mInTelnetCommand = true)
    (hparameters : s.mMultipleParameters = false) (hcommand : ¬ IsNegotiation s.mTelnetCommand) :
    s.decoder = .command := by
  unfold decoder
  rw [if_pos hin, hparameters, if_neg hcommand]
  rfl

/-- What the state of the automaton says about the fields. -/
theorem mInTelnetCommand_of_text (h : s.decoder = .text) : s.mInTelnetCommand = false := by
  unfold decoder at h
  split_ifs at h with hcommand
  exact eq_false_of_ne_true hcommand

theorem fields_of_command (h : s.decoder = .command) : s.mInTelnetCommand = true ∧
    s.mMultipleParameters = false ∧ ¬ IsNegotiation s.mTelnetCommand := by
  unfold decoder at h
  split_ifs at h with hcommand hmulti hnegotiation
  exact ⟨hcommand, eq_false_of_ne_true hmulti, hnegotiation⟩

theorem startCommand_fields : s.startCommand.mInTelnetCommand = true ∧
    s.startCommand.mMultipleParameters = s.mMultipleParameters ∧
    s.startCommand.mTelnetCommand = s.mTelnetCommand := by
  unfold startCommand
  split_ifs <;> exact ⟨rfl, rfl, rfl⟩

theorem handleOption_finishes (c b : JByte) :
    ∃ u, handleOption c b s = finishTelnetCommand u := by
  unfold handleOption handleWillOption handleWontOption handleDoOption handleDontOption
  split_ifs <;> exact ⟨_, rfl⟩

theorem doPlainCommand_reads (h : s.decoder = .command) (b : JByte) :
    (s.doPlainCommand b).decoder = Decoder.next .command b ∧ Settled (s.doPlainCommand b) := by
  obtain ⟨hin, hparameters, hcommand⟩ := fields_of_command h
  have hnot : ∀ c, ¬ IsNegotiation c → c ≠ cmdSb → Decoder.next .command c = .text := by
    intro c hc hsb
    simp only [Decoder.next, if_neg hsb, if_neg hc]
  unfold doPlainCommand
  split_ifs with hec hel hiac hsb hnegotiation hayt
  · rw [hec, hnot _ (by decide) (by decide)]
    exact ⟨decoder_finished, settled_finished⟩
  · rw [hel, hnot _ (by decide) (by decide)]
    exact ⟨decoder_finished, settled_finished⟩
  · rw [hiac, hnot _ (by decide) (by decide)]
    exact ⟨decoder_finished, settled_finished⟩
  · refine ⟨?_, fun hfalse => ?_⟩
    · simp only [Decoder.next, if_pos hsb, decoder, hin, if_true]
    · rw [show s.mInTelnetCommand = false from hfalse] at hin
      cases hin
  · have hneg : IsNegotiation b := hnegotiation
    refine ⟨?_, fun hfalse => ?_⟩
    · simp only [Decoder.next, if_neg hsb, if_pos hneg, decoder, hin, if_true, hparameters,
        Bool.false_eq_true, if_false]
    · rw [show s.mInTelnetCommand = false from hfalse] at hin
      cases hin
  · rw [hnot _ hnegotiation hsb]
    exact ⟨decoder_finished, settled_finished⟩
  · rw [hnot _ hnegotiation hsb]
    exact ⟨decoder_finished, settled_finished⟩

theorem Reads.decoder {b : JByte} (h : Reads s b t) (hs : Settled s) :
    t.decoder = s.decoder.next b ∧ Settled t := by
  cases h with
  | iac hd hb =>
      obtain ⟨hin, hparameters, hcommand⟩ := startCommand_fields (s := s)
      obtain ⟨hparameters', hcommand'⟩ := hs (mInTelnetCommand_of_text hd)
      rw [hd, hb]
      refine ⟨?_, fun hfalse => ?_⟩
      · refine decoder_of_command hin (hparameters.trans hparameters') ?_
        rw [hcommand, hcommand']
        decide
      · rw [hin] at hfalse
        cases hfalse
  | goAhead hd hb =>
      rw [sameCommand_goAhead.decoder, hd, hb]
      exact ⟨rfl, sameCommand_goAhead.settled hs⟩
  | nul hd hb =>
      rw [(sameCommand_echoBack 0).decoder, hd, hb.1]
      exact ⟨rfl, (sameCommand_echoBack 0).settled hs⟩
  | text hd hiac _ _ =>
      have hsame : SameCommand s (s.superProcessInput [b]) := ⟨rfl, rfl, rfl⟩
      rw [(sameCommand_echoBack b).decoder, hsame.decoder, hd]
      refine ⟨?_, (sameCommand_echoBack b).settled (hsame.settled hs)⟩
      simp only [Decoder.next, if_neg hiac]
  | plain hd =>
      rw [hd]
      exact doPlainCommand_reads hd b
  | option hd _ =>
      obtain ⟨u, hu⟩ := handleOption_finishes (s := s) _ b
      rw [hu, hd]
      exact ⟨rfl, settled_finished⟩
  | lastParameter hd hb =>
      rw [hd, hb]
      exact ⟨rfl, settled_finished⟩
  | parameter hd hb =>
      rw [hd]
      refine ⟨?_, hs⟩
      simp only [Decoder.next, if_neg hb]

/-! ## §3  What reaches the emulator -/

theorem screen_superProcessInput (bytes : List JByte) :
    (s.superProcessInput bytes).screen = s.screen ++ bytes := by
  simp only [screen, superProcessInput, List.flatMap_append, List.flatMap_singleton]

theorem screen_accept (data : List JByte) : (s.accept data).screen = s.screen := by
  unfold accept queued
  split_ifs <;> rfl

theorem screen_echoLocally (data : List JByte) : (s.echoLocally data).screen = s.screen := by
  unfold echoLocally
  split_ifs
  · simp only [screen, doLocalEcho, List.flatMap_append, List.flatMap_singleton, List.append_nil]
  · rfl

theorem screen_sendOptionIf (condition : Bool) (command option : JByte) :
    (s.sendOptionIf condition command option).screen = s.screen := by
  cases condition <;> rfl

theorem screen_goAhead : s.goAhead.screen = s.screen := by
  unfold goAhead queued
  split_ifs <;> rfl

theorem screen_startCommand : s.startCommand.screen = s.screen := by
  unfold startCommand
  split_ifs <;> rfl

theorem screen_echoBack (b : JByte) : (s.echoBack b).screen = s.screen := by
  unfold echoBack
  split_ifs <;> rfl

theorem screen_handleOption (c b : JByte) : (handleOption c b s).screen = s.screen := by
  unfold handleOption handleWillOption handleWontOption handleDoOption handleDontOption
  split_ifs
  all_goals first | rfl | exact screen_sendOptionIf _ _ _

/-- What the emulator is given for a command. -/
def rendering (c : JByte) : List JByte :=
  if c = cmdEc then cmdLeft ++ cmdErase
  else if c = cmdEl then cmdEraseLine
  else if c = iac then [iac]
  else []

theorem screen_doPlainCommand (b : JByte) :
    (s.doPlainCommand b).screen = s.screen ++ rendering b := by
  unfold doPlainCommand rendering
  split_ifs
  · rw [← List.append_assoc, ← screen_superProcessInput, ← screen_superProcessInput]
    rfl
  · exact screen_superProcessInput _
  · exact screen_superProcessInput _
  all_goals exact (List.append_nil _).symm

theorem Reads.screen {b : JByte} (h : Reads s b t) :
    t.screen = s.screen ++ s.decoder.shows s.mLastInputByteProcessed b := by
  cases h with
  | iac hd hb =>
      rw [screen_startCommand, hd, hb]
      exact (List.append_nil _).symm
  | goAhead hd hb =>
      rw [screen_goAhead, hd, hb]
      exact (List.append_nil _).symm
  | nul hd hb =>
      rw [screen_echoBack, hd]
      simp only [Decoder.shows, if_pos (Or.inr (Or.inr hb)), List.append_nil]
  | text hd hiac hga hnul =>
      rw [screen_echoBack, screen_superProcessInput, hd]
      simp only [Decoder.shows, if_neg (not_or.mpr ⟨hiac, not_or.mpr ⟨hga, hnul⟩⟩)]
  | plain hd =>
      rw [screen_doPlainCommand, hd]
      rfl
  | option hd _ =>
      rw [screen_handleOption, hd]
      exact (List.append_nil _).symm
  | lastParameter hd _ =>
      rw [hd]
      exact (List.append_nil _).symm
  | parameter hd _ =>
      rw [hd]
      exact (List.append_nil _).symm

/-- The rest of the input is read as if the bytes before it had been left out. -/
structure Follows (bytes : List JByte) (s : TelnetSession) : Prop where
  settled : Settled s
  screen : ∀ rest, Decoder.text.screen nul (bytes ++ rest) =
    s.screen ++ s.decoder.screen s.mLastInputByteProcessed rest

theorem follows_create (isRunning : Bool) : Follows [] (create isRunning) :=
  ⟨fun _ => ⟨rfl, rfl⟩, fun _ => rfl⟩

theorem Follows.accept {bytes : List JByte} (h : Follows bytes s) (data echo : List JByte) :
    Follows bytes ((s.accept data).echoLocally echo) := by
  have hsame := sameCommand_written (s := s) data echo
  have hlast : ((s.accept data).echoLocally echo).mLastInputByteProcessed =
      s.mLastInputByteProcessed := by
    unfold echoLocally TelnetSession.accept queued
    split_ifs <;> rfl
  refine ⟨hsame.settled h.settled, fun rest => ?_⟩
  rw [screen_echoLocally, screen_accept, hsame.decoder, hlast]
  exact h.screen rest

theorem Follows.receive {bytes : List JByte} (h : Follows bytes s) (b : JByte) :
    Follows (bytes ++ [b]) (s.receive b) := by
  obtain ⟨u, hreads, hu⟩ := reads_receive (s := s) b
  obtain ⟨hdecoder, hsettled⟩ := hreads.decoder h.settled
  rw [hu]
  refine ⟨hsettled, fun rest => ?_⟩
  rw [List.append_assoc, h.screen, setLast_decoder, hdecoder]
  change s.screen ++ Decoder.screen _ _ (b :: rest) = u.screen ++ _
  rw [hreads.screen, List.append_assoc]
  rfl

theorem follows_of_history {isRunning : Bool} {calls : List Call}
    (h : runAll perform calls (create isRunning) = .ok ⟨⟩ t) : Follows (arrived calls) t :=
  arrived_history (follows_create isRunning) (fun _ _ data echo hu => hu.accept data echo)
    (fun _ _ b hu => hu.receive b) h

theorem screen_of_history {isRunning : Bool} {calls : List Call}
    (h : runAll perform calls (create isRunning) = .ok ⟨⟩ t) :
    t.screen = Decoder.text.screen nul (arrived calls) := by
  have hscreen := (follows_of_history h).screen []
  rw [List.append_nil] at hscreen
  rw [hscreen]
  exact (List.append_nil _).symm

/-! ## §4  Text -/

/-- Text as a telnet server sends it: `IAC` doubled, and a carriage return that does not
begin a new line followed by a NUL. -/
def networkText : List JByte → List JByte
  | [] => []
  | b :: text =>
      if b = iac then iac :: iac :: networkText text
      else if b = cr ∧ text.head? ≠ some lf then cr :: nul :: networkText text
      else b :: networkText text

theorem screen_networkText (text : List JByte) (last : JByte)
    (h : last = cr → text.head? ≠ some nul) :
    Decoder.text.screen last (networkText text) = text.filter (· ≠ cmdGa) := by
  induction text generalizing last with
  | nil => rfl
  | cons b text ih =>
      unfold networkText
      split_ifs with hiac hcr
      · have hih := ih iac (fun hlast => absurd hlast (by decide))
        rw [hiac]
        exact congrArg (iac :: ·) hih
      · have hih := ih nul (fun hlast => absurd hlast (by decide))
        rw [hcr.1]
        exact congrArg (cr :: ·) hih
      · have hih := ih b (fun hb hhead => hcr ⟨hb, by rw [hhead]; decide⟩)
        change Decoder.shows .text last b ++ (Decoder.next .text b).screen b _ = _
        rw [show Decoder.next .text b = .text from if_neg hiac, hih]
        by_cases hga : b = cmdGa
        · have hshows : Decoder.shows .text last b = [] := if_pos (.inr (.inl hga))
          rw [hshows]
          simp [hga]
        · have hnul : ¬ (b = nul ∧ last = cr) := by
            rintro ⟨rfl, hlast⟩
            exact h hlast rfl
          have hshows : Decoder.shows .text last b = [b] :=
            if_neg (not_or.mpr ⟨hiac, not_or.mpr ⟨hga, hnul⟩⟩)
          rw [hshows]
          simp [hga]

/-- Text sent by the rules of the protocol reaches the emulator unchanged but for the
bytes 249, which are taken for go-aheads, whatever calls it arrives in and whatever is
written meanwhile. -/
theorem text_arrives {isRunning : Bool} {calls : List Call} {text : List JByte}
    (h : runAll perform calls (create isRunning) = .ok ⟨⟩ t)
    (htext : arrived calls = networkText text) : t.screen = text.filter (· ≠ cmdGa) := by
  rw [screen_of_history h, htext]
  exact screen_networkText text nul (fun hlast => absurd hlast (by decide))

theorem text_arrives_sample : ∃ t, runAll perform [.processInput [72, 255] 0 2,
      .write [105] 0 1, .processInput [255, 249, 13, 10] 0 4] (create true) = .ok ⟨⟩ t ∧
    t.screen = [72, 255, 13, 10] := by
  have hrun : ∃ t, runAll perform [.processInput [72, 255] 0 2, .write [105] 0 1,
      .processInput [255, 249, 13, 10] 0 4] (create true) = .ok ⟨⟩ t := ⟨_, rfl⟩
  obtain ⟨t, ht⟩ := hrun
  have htext : arrived [.processInput [72, 255] 0 2, .write [105] 0 1,
      .processInput [255, 249, 13, 10] 0 4] = networkText [72, 255, 249, 13, 10] := rfl
  exact ⟨t, ht, text_arrives ht htext⟩

/-! ## §5  Text with commands in it -/

/-- What a peer may send: a byte of text, a command of one byte, an option, or a command
with parameters. -/
inductive Item where
  | text (b : JByte)
  | command (c : JByte)
  | option (command option : JByte)
  | parameters (bytes : List JByte)
deriving DecidableEq

namespace Item

def WellFormed : Item → Prop
  | .text b => b ≠ iac
  | .command c => c ≠ cmdSb ∧ ¬ IsNegotiation c
  | .option c _ => IsNegotiation c
  | .parameters bytes => cmdSe ∉ bytes

instance (item : Item) : Decidable item.WellFormed := by
  cases item with
  | parameters bytes =>
      exact @decidable_of_iff _ (∀ b ∈ bytes, ¬b = cmdSe) List.forall_mem_ne' (bytes.decidableBAll _)
  | _ => unfold WellFormed; infer_instance

def encode : Item → List JByte
  | .text b => [b]
  | .command c => [iac, c]
  | .option c o => [iac, c, o]
  | .parameters bytes => iac :: cmdSb :: bytes ++ [cmdSe]

/-- The last byte of the item. -/
def last : Item → JByte
  | .text b => b
  | .command c => c
  | .option _ o => o
  | .parameters _ => cmdSe

/-- What the emulator is to be given for the item, behind the byte `before`. -/
def render (before : JByte) : Item → List JByte
  | .text b => if b = cmdGa ∨ b = nul ∧ before = cr then [] else [b]
  | .command c => rendering c
  | .option _ _ => []
  | .parameters _ => []

/-- The items in order. -/
def renderAll : JByte → List Item → List JByte
  | _, [] => []
  | before, item :: items => item.render before ++ renderAll item.last items

end Item

theorem screen_parameters {bytes : List JByte} (h : cmdSe ∉ bytes) (last : JByte)
    (rest : List JByte) : Decoder.parameters.screen last (bytes ++ cmdSe :: rest) =
      Decoder.text.screen cmdSe rest := by
  induction bytes generalizing last with
  | nil => rfl
  | cons b bytes ih =>
      rw [List.mem_cons, not_or] at h
      change [] ++ (Decoder.next .parameters b).screen b (bytes ++ cmdSe :: rest) = _
      rw [show Decoder.next .parameters b = .parameters from if_neg (Ne.symm h.1)]
      exact ih h.2 b

theorem screen_item {item : Item} (h : item.WellFormed) (before : JByte) (rest : List JByte) :
    Decoder.text.screen before (item.encode ++ rest) =
      item.render before ++ Decoder.text.screen item.last rest := by
  cases item with
  | text b =>
      have hiac : b ≠ iac := h
      change Decoder.shows .text before b ++ (Decoder.next .text b).screen b rest = _
      rw [show Decoder.next .text b = .text from if_neg hiac]
      congr 1
      simp only [Decoder.shows, hiac, false_or, Item.render]
  | command c =>
      change [] ++ (rendering c ++ (Decoder.next .command c).screen c rest) = _
      have hnext : Decoder.next .command c = .text := by
        simp only [Decoder.next, if_neg h.1, if_neg h.2]
      rw [hnext]
      rfl
  | option c o =>
      have hc : IsNegotiation c := h
      have hsb : c ≠ cmdSb := by
        rintro rfl
        exact absurd hc (by decide)
      have hnext : Decoder.next .command c = .option c := by
        simp only [Decoder.next, if_neg hsb, if_pos hc]
      have hrendering : rendering c = [] := by
        rcases hc with rfl | rfl | rfl | rfl <;> decide
      change [] ++ (rendering c ++ (Decoder.next .command c).screen c (o :: rest)) = _
      rw [hnext, hrendering]
      rfl
  | parameters bytes =>
      change [] ++ (rendering cmdSb ++ Decoder.parameters.screen cmdSb (bytes ++ [cmdSe] ++ rest)) =
        _
      rw [List.append_assoc]
      exact screen_parameters h cmdSb rest

theorem screen_items {items : List Item} (h : ∀ item ∈ items, item.WellFormed) (before : JByte) :
    Decoder.text.screen before (items.flatMap Item.encode) = Item.renderAll before items := by
  induction items generalizing before with
  | nil => rfl
  | cons item items ih =>
      obtain ⟨hitem, hitems⟩ := List.forall_mem_cons.mp h
      rw [List.flatMap_cons, screen_item hitem, ih hitems]
      rfl

/-- Of a stream of text, commands, options and parameters the emulator sees the text and
what the three commands about it stand for; nothing of a command or of its parameters
leaks into the terminal, and nothing behind it is swallowed, in whatever calls it arrives
and whatever is written meanwhile. -/
theorem commands_do_not_leak {isRunning : Bool} {calls : List Call} {items : List Item}
    (h : runAll perform calls (create isRunning) = .ok ⟨⟩ t)
    (hwf : ∀ item ∈ items, item.WellFormed)
    (hitems : arrived calls = items.flatMap Item.encode) : t.screen = Item.renderAll nul items := by
  rw [screen_of_history h, hitems, screen_items hwf]

theorem commands_do_not_leak_sample :
    ∃ t, runAll perform sampleCalls (create true) = .ok ⟨⟩ t ∧ t.screen = [36, 36] := by
  obtain ⟨t, hrun, _⟩ := sampleCalls_return
  have hwf : ∀ item ∈ [Item.option cmdWont optionSuppressGoAhead, .text 36, .command cmdGa,
      .text 36], item.WellFormed := by decide
  exact ⟨t, hrun, commands_do_not_leak hrun hwf rfl⟩

end Kbox.Telnet
