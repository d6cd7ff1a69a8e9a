import Kbox.Telnet.Decoder
import Mathlib.Data.List.Destutter

/-!
# What is negotiated

The option commands the client sends are determined by those that have arrived: an
announcement is answered when it changes what the client believes, and once more or less
for the request of the client's own that it answers.  A peer that repeats itself gets no
second answer, so the client never keeps a negotiation going.
-/

namespace Kbox.Telnet

open Kbox.Framework TelnetSession

/-! ## §1  Announcements -/

/-- The answers `yes` and `no` about an option, in their order. -/
def announced (yes no option : JByte) (commands : List (JByte × JByte)) : List Bool :=
  commands.filterMap fun p =>
    if p.2 = option then
      if p.1 = yes then some true else if p.1 = no then some false else none
    else none

theorem announced_append (yes no option : JByte) (cs ds : List (JByte × JByte)) :
    announced yes no option (cs ++ ds) = announced yes no option cs ++ announced yes no option ds :=
  List.filterMap_append

theorem announced_other {yes no option c o : JByte} (h : o ≠ option) :
    announced yes no option [(c, o)] = [] := by
  simp only [announced, List.filterMap_cons, if_neg h, List.filterMap_nil]

/-- The announcements that differ from the one before, the first one aside. -/
def turns (heard : List Bool) : List Bool := (heard.destutter (· ≠ ·)).tail

theorem destutter'_concat (a v : Bool) (l : List Bool) :
    (l ++ [v]).destutter' (· ≠ ·) a =
      l.destutter' (· ≠ ·) a ++ if v = l.getLastD a then [] else [v] := by
  induction l generalizing a with
  | nil => cases a <;> cases v <;> rfl
  | cons b l ih =>
      rw [List.cons_append, List.getLastD_cons]
      by_cases hb : a = b
      · rw [List.destutter'_cons_neg _ (not_not_intro hb), List.destutter'_cons_neg _
          (not_not_intro hb), ih, hb]
      · rw [List.destutter'_cons_pos _ hb, List.destutter'_cons_pos _ hb, ih]
        rfl

theorem tail_append_of_ne_nil {l m : List Bool} (h : l ≠ []) : (l ++ m).tail = l.tail ++ m := by
  cases l with
  | nil => exact absurd rfl h
  | cons a l => rfl

theorem turns_concat (heard : List Bool) (v : Bool) : turns (heard ++ [v]) =
    turns heard ++ if heard = [] ∨ v = heard.getLastD false then [] else [v] := by
  cases heard with
  | nil => rfl
  | cons a heard =>
      unfold turns
      rw [List.cons_append, List.destutter_cons', List.destutter_cons', destutter'_concat,
        tail_append_of_ne_nil (List.destutter'_ne_nil _ _), List.getLastD_cons]
      simp only [List.cons_ne_nil, false_or]

/-! ## §2  One direction of suppress-go-ahead -/

/-- The client has asked once; `heard` is what was announced since, `value` what it
believes, `requested` whether its request is open, `said` what it has said. -/
structure Settling (heard : List Bool) (value requested : Bool) (said : List Bool) : Prop where
  value : value = heard.getLastD false
  requested : requested = heard.isEmpty
  said : said = true :: turns heard

theorem Settling.hear {heard said : List Bool} {value requested : Bool}
    (h : Settling heard value requested said) (v : Bool) : Settling (heard ++ [v]) v false
      (said ++ if !requested && value != v then [v] else []) := by
  refine ⟨?_, ?_, ?_⟩
  · rw [List.getLastD_concat]
  · simp
  · rw [turns_concat, h.said, h.value, h.requested, List.cons_append]
    congr 2
    cases heard with
    | nil => rfl
    | cons a heard => cases v <;> cases hlast : (a :: heard).getLastD false <;> simp

/-! ## §3  What a command does to the dialogue -/

namespace TelnetSession

/-- The option commands sent, in their order. -/
def optionsSent (s : TelnetSession) : List (JByte × JByte) :=
  s.sent.filterMap fun call => if let .option c o := call then some (c, o) else none

end TelnetSession

variable {s t : TelnetSession}

theorem optionsSent_superWrite (call : Sent) (h : ∀ c o, call ≠ .option c o) :
    (s.superWrite call).optionsSent = s.optionsSent := by
  unfold optionsSent superWrite
  rw [List.filterMap_append]
  cases call with
  | option c o => exact absurd rfl (h c o)
  | _ => exact List.append_nil _

theorem optionsSent_sendOption (c o : JByte) :
    (s.sendOption c o).optionsSent = s.optionsSent ++ [(c, o)] := by
  unfold optionsSent sendOption superWrite
  rw [List.filterMap_append]
  rfl

theorem optionsSent_sendOptionIf (condition : Bool) (c o : JByte) :
    (s.sendOptionIf condition c o).optionsSent =
      s.optionsSent ++ if condition then [(c, o)] else [] := by
  cases condition with
  | true => exact optionsSent_sendOption c o
  | false => exact (List.append_nil _).symm

theorem optionsSent_flushWriteBuf : s.flushWriteBuf.optionsSent = s.optionsSent :=
  optionsSent_superWrite _ (fun _ _ h => by cases h)

/-- What is sent in answer to a command. -/
def reply (c b : JByte) (s : TelnetSession) : List (JByte × JByte) :=
  if c = cmdWill then
    if b = optionEcho then if !s.peerEchoesInput then [(cmdDo, optionEcho)] else []
    else if b = optionSuppressGoAhead then
      if !s.doSuppressGaRequested && !s.peerSuppressedGoAhead then
        [(cmdDo, optionSuppressGoAhead)] else []
    else [(cmdDont, b)]
  else if c = cmdWont then
    if b = optionEcho then if s.peerEchoesInput then [(cmdDont, optionEcho)] else []
    else if b = optionSuppressGoAhead then
      if !s.doSuppressGaRequested && s.peerSuppressedGoAhead then
        [(cmdDont, optionSuppressGoAhead)] else []
    else []
  else if c = cmdDo then
    if b = optionEcho then [(cmdWont, optionEcho)]
    else if b = optionSuppressGoAhead then
      if !s.willSuppressGaRequested && !s.suppressGoAhead then
        [(cmdWill, optionSuppressGoAhead)] else []
    else [(cmdWont, b)]
  else
    if b = optionEcho then if s.echoInput then [(cmdWont, optionEcho)] else []
    else if b = optionSuppressGoAhead then
      if !s.willSuppressGaRequested && s.suppressGoAhead then
        [(cmdWont, optionSuppressGoAhead)] else []
    else []

/-- The fields about options, and what has been sent about them. -/
structure Answered (c b : JByte) (s t : TelnetSession) : Prop where
  sent : t.optionsSent = s.optionsSent ++ reply c b s
  peerEchoes : t.peerEchoesInput =
    if b = optionEcho then
      if c = cmdWill then true else if c = cmdWont then false else s.peerEchoesInput
    else s.peerEchoesInput
  peer : t.peerSuppressedGoAhead =
    if b = optionSuppressGoAhead then
      if c = cmdWill then true else if c = cmdWont then false else s.peerSuppressedGoAhead
    else s.peerSuppressedGoAhead
  peerRequest : t.doSuppressGaRequested =
    if b = optionSuppressGoAhead ∧ (c = cmdWill ∨ c = cmdWont) then false
    else s.doSuppressGaRequested
  self : t.suppressGoAhead =
    if b = optionSuppressGoAhead then
      if c = cmdDo then true else if c = cmdDont then false else s.suppressGoAhead
    else s.suppressGoAhead
  selfRequest : t.willSuppressGaRequested =
    if b = optionSuppressGoAhead ∧ (c = cmdDo ∨ c = cmdDont) then false
    else s.willSuppressGaRequested
  echoInput : s.echoInput = false → t.echoInput = false
  telnetd : t.peerIsTelnetd = s.peerIsTelnetd

/-- The fields about options. -/
structure SameOptions (s t : TelnetSession) : Prop where
  peerEchoes : t.peerEchoesInput = s.peerEchoesInput
  peer : t.peerSuppressedGoAhead = s.peerSuppressedGoAhead
  peerRequest : t.doSuppressGaRequested = s.doSuppressGaRequested
  self : t.suppressGoAhead = s.suppressGoAhead
  selfRequest : t.willSuppressGaRequested = s.willSuppressGaRequested
  echoInput : t.echoInput = s.echoInput
  telnetd : t.peerIsTelnetd = s.peerIsTelnetd

theorem sameOptions_sendOptionIf (condition : Bool) (c o : JByte) :
    SameOptions s (s.sendOptionIf condition c o) := by
  cases condition <;> exact ⟨rfl, rfl, rfl, rfl, rfl, rfl, rfl⟩

theorem cmdWont_ne_cmdWill : cmdWont ≠ cmdWill := by decide
theorem cmdDo_ne_cmdWill : cmdDo ≠ cmdWill := by decide
theorem cmdDo_ne_cmdWont : cmdDo ≠ cmdWont := by decide
theorem cmdDont_ne_cmdWill : cmdDont ≠ cmdWill := by decide
theorem cmdDont_ne_cmdWont : cmdDont ≠ cmdWont := by decide
theorem cmdDont_ne_cmdDo : cmdDont ≠ cmdDo := by decide
theorem suppress_ne_echo : optionSuppressGoAhead ≠ optionEcho := by decide

theorem answered_other {c b : JByte} (hecho : b ≠ optionEcho) (hga : b ≠ optionSuppressGoAhead)
    (hsame : SameOptions s t) (hsent : t.optionsSent = s.optionsSent ++ reply c b s) :
    Answered c b s t := by
  refine ⟨hsent, ?_, ?_, ?_, ?_, ?_, hsame.echoInput.trans, hsame.telnetd⟩
  · rw [if_neg hecho]
    exact hsame.peerEchoes
  · rw [if_neg hga]
    exact hsame.peer
  · rw [if_neg (fun h => hga h.1)]
    exact hsame.peerRequest
  · rw [if_neg hga]
    exact hsame.self
  · rw [if_neg (fun h => hga h.1)]
    exact hsame.selfRequest

theorem answered_will (b : JByte) : Answered cmdWill b s (s.handleWillOption b) := by
  unfold handleWillOption
  split_ifs with hecho hga
  · subst hecho
    have hsame := sameOptions_sendOptionIf (s := s) (!s.peerEchoesInput) cmdDo optionEcho
    exact ⟨optionsSent_sendOptionIf _ _ _, rfl, hsame.peer, hsame.peerRequest, hsame.self,
      hsame.selfRequest, hsame.echoInput.trans, hsame.telnetd⟩
  · subst hga
    have hsame := sameOptions_sendOptionIf (s := s)
      (!s.doSuppressGaRequested && !s.peerSuppressedGoAhead) cmdDo optionSuppressGoAhead
    exact ⟨optionsSent_flushWriteBuf.trans (optionsSent_sendOptionIf _ _ _), hsame.peerEchoes, rfl,
      rfl, hsame.self, hsame.selfRequest, hsame.echoInput.trans, hsame.telnetd⟩
  · refine answered_other hecho hga ⟨rfl, rfl, rfl, rfl, rfl, rfl, rfl⟩ ?_
    rw [reply, if_pos rfl, if_neg hecho, if_neg hga]
    exact optionsSent_sendOption cmdDont b

theorem answered_wont (b : JByte) : Answered cmdWont b s (s.handleWontOption b) := by
  unfold handleWontOption
  split_ifs with hecho hga
  · subst hecho
    have hsame := sameOptions_sendOptionIf (s := s) s.peerEchoesInput cmdDont optionEcho
    exact ⟨optionsSent_sendOptionIf _ _ _, rfl, hsame.peer, hsame.peerRequest, hsame.self,
      hsame.selfRequest, hsame.echoInput.trans, hsame.telnetd⟩
  · subst hga
    have hsame := sameOptions_sendOptionIf (s := s)
      (!s.doSuppressGaRequested && s.peerSuppressedGoAhead) cmdDont optionSuppressGoAhead
    exact ⟨optionsSent_sendOptionIf _ _ _, hsame.peerEchoes, rfl, rfl, hsame.self,
      hsame.selfRequest, hsame.echoInput.trans, hsame.telnetd⟩
  · refine answered_other hecho hga ⟨rfl, rfl, rfl, rfl, rfl, rfl, rfl⟩ ?_
    rw [reply, if_neg cmdWont_ne_cmdWill, if_pos rfl, if_neg hecho, if_neg hga]
    exact (List.append_nil _).symm

theorem answered_do (b : JByte) : Answered cmdDo b s (s.handleDoOption b) := by
  unfold handleDoOption
  split_ifs with hecho hga
  · subst hecho
    exact ⟨optionsSent_sendOption _ _, rfl, rfl, rfl, rfl, rfl, id, rfl⟩
  · subst hga
    have hsame := sameOptions_sendOptionIf (s := s)
      (!s.willSuppressGaRequested && !s.suppressGoAhead) cmdWill optionSuppressGoAhead
    exact ⟨optionsSent_sendOptionIf _ _ _, hsame.peerEchoes, hsame.peer, hsame.peerRequest, rfl,
      rfl, hsame.echoInput.trans, hsame.telnetd⟩
  · refine answered_other hecho hga ⟨rfl, rfl, rfl, rfl, rfl, rfl, rfl⟩ ?_
    rw [reply, if_neg cmdDo_ne_cmdWill, if_neg cmdDo_ne_cmdWont, if_pos rfl, if_neg hecho,
      if_neg hga]
    exact optionsSent_sendOption cmdWont b

theorem answered_dont (b : JByte) : Answered cmdDont b s (s.handleDontOption b) := by
  unfold handleDontOption
  split_ifs with hecho hga
  · subst hecho
    have hsame := sameOptions_sendOptionIf (s := s) s.echoInput cmdWont optionEcho
    exact ⟨optionsSent_sendOptionIf _ _ _, hsame.peerEchoes, hsame.peer, hsame.peerRequest,
      hsame.self, hsame.selfRequest, fun _ => rfl, hsame.telnetd⟩
  · subst hga
    have hsame := sameOptions_sendOptionIf (s := s)
      (!s.willSuppressGaRequested && s.suppressGoAhead) cmdWont optionSuppressGoAhead
    exact ⟨optionsSent_sendOptionIf _ _ _, hsame.peerEchoes, hsame.peer, hsame.peerRequest, rfl,
      rfl, hsame.echoInput.trans, hsame.telnetd⟩
  · refine answered_other hecho hga ⟨rfl, rfl, rfl, rfl, rfl, rfl, rfl⟩ ?_
    rw [reply, if_neg cmdDont_ne_cmdWill, if_neg cmdDont_ne_cmdWont, if_neg cmdDont_ne_cmdDo,
      if_neg hecho, if_neg hga]
    exact (List.append_nil _).symm

theorem answered_handleOption {c : JByte} (hc : IsNegotiation c) (b : JByte) :
    Answered c b s (handleOption c b s) := by
  rcases hc with rfl | rfl | rfl | rfl
  · exact answered_will b
  · exact answered_wont b
  · exact answered_do b
  · exact answered_dont b

/-! ## §4  The dialogue -/

/-- The refusals a list of commands is owed: of any option but the two that are known. -/
def refusals (commands : List (JByte × JByte)) : List (JByte × JByte) :=
  commands.filterMap fun p =>
    if p.1 = cmdWill then some (cmdDont, p.2) else if p.1 = cmdDo then some (cmdWont, p.2) else none

/-- Neither of the two options the client knows. -/
def IsUnknown (o : JByte) : Prop := o ≠ optionEcho ∧ o ≠ optionSuppressGoAhead

instance (o : JByte) : Decidable (IsUnknown o) := inferInstanceAs (Decidable (_ ∧ _))

/-- What the client believes about echoing, and what it has said about it. -/
structure Echoing (heard : List (JByte × JByte)) (s : TelnetSession) : Prop where
  value : s.peerEchoesInput = (announced cmdWill cmdWont optionEcho heard).getLastD false
  said : announced cmdDo cmdDont optionEcho s.optionsSent =
    turns (false :: announced cmdWill cmdWont optionEcho heard)
  refused : announced cmdWill cmdWont optionEcho s.optionsSent =
    ((announced cmdDo cmdDont optionEcho heard).filter id).map not

/-- Where the client stands after the commands `heard`. -/
structure Dialogue (heard : List (JByte × JByte)) (s : TelnetSession) : Prop where
  echoInput : s.echoInput = false
  echoing : Echoing heard s
  untouched : s.peerIsTelnetd = false → heard = [] ∧ s.optionsSent = [] ∧
    s.peerSuppressedGoAhead = true ∧ s.suppressGoAhead = true ∧ s.mInTelnetCommand = false
  peer : s.peerIsTelnetd = true → Settling (announced cmdWill cmdWont optionSuppressGoAhead heard)
    s.peerSuppressedGoAhead s.doSuppressGaRequested
    (announced cmdDo cmdDont optionSuppressGoAhead s.optionsSent)
  self : s.peerIsTelnetd = true → Settling (announced cmdDo cmdDont optionSuppressGoAhead heard)
    s.suppressGoAhead s.willSuppressGaRequested
    (announced cmdWill cmdWont optionSuppressGoAhead s.optionsSent)
  unknown : s.optionsSent.filter (IsUnknown ·.2) = refusals (heard.filter (IsUnknown ·.2))

theorem announced_eq_nil {yes no option : JByte} {commands : List (JByte × JByte)}
    (h : ∀ p ∈ commands, p.2 ≠ option) : announced yes no option commands = [] := by
  refine List.filterMap_eq_nil_iff.mpr fun p hp => ?_
  rw [if_neg (h p hp)]

theorem option_of_reply {c b : JByte} {p : JByte × JByte} (h : p ∈ reply c b s) : p.2 = b := by
  unfold reply at h
  split_ifs at h <;> simp_all

theorem announced_reply_other {yes no option c b : JByte} (h : b ≠ option) :
    announced yes no option (reply c b s) = [] :=
  announced_eq_nil fun p hp => by
    rw [option_of_reply hp]
    exact h

theorem peer_answered {heard : List (JByte × JByte)} {c b : JByte} (hc : IsNegotiation c)
    (h : Settling (announced cmdWill cmdWont optionSuppressGoAhead heard)
      s.peerSuppressedGoAhead s.doSuppressGaRequested
      (announced cmdDo cmdDont optionSuppressGoAhead s.optionsSent))
    (ht : Answered c b s t) :
    Settling (announced cmdWill cmdWont optionSuppressGoAhead (heard ++ [(c, b)]))
      t.peerSuppressedGoAhead t.doSuppressGaRequested
      (announced cmdDo cmdDont optionSuppressGoAhead t.optionsSent) := by
  rw [announced_append, ht.sent, announced_append, ht.peer, ht.peerRequest]
  by_cases hb : b = optionSuppressGoAhead
  · subst hb
    rcases hc with rfl | rfl | rfl | rfl
    · have hreply : announced cmdDo cmdDont optionSuppressGoAhead
          (reply cmdWill optionSuppressGoAhead s) =
          if !s.doSuppressGaRequested && s.peerSuppressedGoAhead != true then [true] else [] := by
        cases hreq : s.doSuppressGaRequested <;> cases hpeer : s.peerSuppressedGoAhead <;>
          simp [reply, hreq, hpeer, announced, suppress_ne_echo]
      rw [hreply]
      exact h.hear true
    · have hreply : announced cmdDo cmdDont optionSuppressGoAhead
          (reply cmdWont optionSuppressGoAhead s) =
          if !s.doSuppressGaRequested && s.peerSuppressedGoAhead != false then [false] else [] := by
        cases hreq : s.doSuppressGaRequested <;> cases hpeer : s.peerSuppressedGoAhead <;>
          simp [reply, hreq, hpeer, announced, suppress_ne_echo, cmdWont_ne_cmdWill,
            cmdDont_ne_cmdDo]
      rw [hreply]
      exact h.hear false
    all_goals
      have hheard : ∀ c, c = cmdDo ∨ c = cmdDont →
          announced cmdWill cmdWont optionSuppressGoAhead [(c, optionSuppressGoAhead)] = [] := by
        rintro c (rfl | rfl) <;> decide
      have hreply : ∀ c, c = cmdDo ∨ c = cmdDont → announced cmdDo cmdDont optionSuppressGoAhead
          (reply c optionSuppressGoAhead s) = [] := by
        rintro c (rfl | rfl) <;>
          cases hreq : s.willSuppressGaRequested <;> cases hself : s.suppressGoAhead <;>
            simp [reply, hreq, hself, announced, cmdWill, cmdWont, cmdDo, cmdDont, optionEcho,
              optionSuppressGoAhead]
    · rw [hheard _ (.inl rfl), hreply _ (.inl rfl), List.append_nil, List.append_nil]
      exact h
    · rw [hheard _ (.inr rfl), hreply _ (.inr rfl), List.append_nil, List.append_nil]
      exact h
  · rw [announced_other hb, announced_reply_other hb, List.append_nil, List.append_nil,
      if_neg hb, if_neg (fun h => hb h.1)]
    exact h

theorem self_answered {heard : List (JByte × JByte)} {c b : JByte} (hc : IsNegotiation c)
    (h : Settling (announced cmdDo cmdDont optionSuppressGoAhead heard)
      s.suppressGoAhead s.willSuppressGaRequested
      (announced cmdWill cmdWont optionSuppressGoAhead s.optionsSent))
    (ht : Answered c b s t) :
    Settling (announced cmdDo cmdDont optionSuppressGoAhead (heard ++ [(c, b)]))
      t.suppressGoAhead t.willSuppressGaRequested
      (announced cmdWill cmdWont optionSuppressGoAhead t.optionsSent) := by
  rw [announced_append, ht.sent, announced_append, ht.self, ht.selfRequest]
  by_cases hb : b = optionSuppressGoAhead
  · subst hb
    have hheard : ∀ c, c = cmdWill ∨ c = cmdWont →
        announced cmdDo cmdDont optionSuppressGoAhead [(c, optionSuppressGoAhead)] = [] := by
      rintro c (rfl | rfl) <;> decide
    have hreply : ∀ c, c = cmdWill ∨ c = cmdWont → announced cmdWill cmdWont
        optionSuppressGoAhead (reply c optionSuppressGoAhead s) = [] := by
      rintro c (rfl | rfl) <;>
        cases hreq : s.doSuppressGaRequested <;> cases hpeer : s.peerSuppressedGoAhead <;>
          simp [reply, hreq, hpeer, announced, cmdWill, cmdWont, cmdDo, cmdDont, optionEcho,
            optionSuppressGoAhead]
    rcases hc with rfl | rfl | rfl | rfl
    · rw [hheard _ (.inl rfl), hreply _ (.inl rfl), List.append_nil, List.append_nil]
      exact h
    · rw [hheard _ (.inr rfl), hreply _ (.inr rfl), List.append_nil, List.append_nil]
      exact h
    · have hyes : announced cmdWill cmdWont optionSuppressGoAhead
          (reply cmdDo optionSuppressGoAhead s) =
          if !s.willSuppressGaRequested && s.suppressGoAhead != true then [true] else [] := by
        cases hreq : s.willSuppressGaRequested <;> cases hself : s.suppressGoAhead <;>
          simp [reply, hreq, hself, announced, cmdWill, cmdWont, cmdDo, optionEcho,
            optionSuppressGoAhead]
      rw [hyes]
      exact h.hear true
    · have hno : announced cmdWill cmdWont optionSuppressGoAhead
          (reply cmdDont optionSuppressGoAhead s) =
          if !s.willSuppressGaRequested && s.suppressGoAhead != false then [false] else [] := by
        cases hreq : s.willSuppressGaRequested <;> cases hself : s.suppressGoAhead <;>
          simp [reply, hreq, hself, announced, cmdWill, cmdWont, cmdDo, cmdDont, optionEcho,
            optionSuppressGoAhead]
      rw [hno]
      exact h.hear false
  · rw [announced_other hb, announced_reply_other hb, List.append_nil, List.append_nil,
      if_neg hb, if_neg (fun h => hb h.1)]
    exact h

theorem turns_cons_concat (heard : List Bool) (v : Bool) : turns (false :: (heard ++ [v])) =
    turns (false :: heard) ++ if v = heard.getLastD false then [] else [v] := by
  rw [← List.cons_append, turns_concat, List.getLastD_cons]
  simp only [List.cons_ne_nil, false_or]

theorem echo_answered {heard : List (JByte × JByte)} {c b : JByte} (hc : IsNegotiation c)
    (hecho : s.echoInput = false) (h : Echoing heard s) (ht : Answered c b s t) :
    Echoing (heard ++ [(c, b)]) t := by
  by_cases hb : b = optionEcho
  · subst hb
    have hvalue := h.value
    rcases hc with rfl | rfl | rfl | rfl
    · refine ⟨?_, ?_, ?_⟩
      · rw [ht.peerEchoes, announced_append]
        exact (List.getLastD_concat ..).symm
      · rw [ht.sent, announced_append, announced_append, h.said]
        refine Eq.trans ?_ (turns_cons_concat _ true).symm
        rw [← hvalue]
        cases hpeer : s.peerEchoesInput <;> simp [reply, hpeer, announced]
      · rw [ht.sent, announced_append, announced_append, h.refused, List.filter_append,
          List.map_append]
        congr 1
        cases hpeer : s.peerEchoesInput <;>
          simp [reply, hpeer, announced, cmdWill, cmdWont, cmdDo, cmdDont, optionEcho]
    · refine ⟨?_, ?_, ?_⟩
      · rw [ht.peerEchoes, announced_append]
        exact (List.getLastD_concat ..).symm
      · rw [ht.sent, announced_append, announced_append, h.said]
        refine Eq.trans ?_ (turns_cons_concat _ false).symm
        rw [← hvalue]
        cases hpeer : s.peerEchoesInput <;>
          simp [reply, hpeer, announced, cmdWont_ne_cmdWill, cmdDont_ne_cmdDo]
      · rw [ht.sent, announced_append, announced_append, h.refused, List.filter_append,
          List.map_append]
        congr 1
        cases hpeer : s.peerEchoesInput <;>
          simp [reply, hpeer, announced, cmdWill, cmdWont, cmdDo, cmdDont, optionEcho]
    · have hreply : reply cmdDo optionEcho s = [(cmdWont, optionEcho)] := rfl
      refine ⟨ht.peerEchoes.trans (hvalue.trans ?_), ?_, ?_⟩
      · rw [announced_append]
        exact congrArg (List.getLastD · false) (List.append_nil _).symm
      · rw [ht.sent, hreply, announced_append, announced_append, h.said]
        exact (List.append_nil _).trans
          (congrArg (fun l => turns (false :: l)) (List.append_nil _).symm)
      · rw [ht.sent, hreply, announced_append, announced_append, h.refused, List.filter_append,
          List.map_append]
        rfl
    · have hreply : reply cmdDont optionEcho s = [] := by
        simp [reply, hecho, cmdDont_ne_cmdWill, cmdDont_ne_cmdWont, cmdDont_ne_cmdDo]
      refine ⟨ht.peerEchoes.trans (hvalue.trans ?_), ?_, ?_⟩
      · rw [announced_append]
        exact congrArg (List.getLastD · false) (List.append_nil _).symm
      · rw [ht.sent, hreply, List.append_nil, announced_append, h.said]
        exact congrArg (fun l => turns (false :: l)) (List.append_nil _).symm
      · rw [ht.sent, hreply, List.append_nil, announced_append, h.refused, List.filter_append,
          List.map_append]
        exact (List.append_nil _).symm
  · have hpeer := ht.peerEchoes
    rw [if_neg hb] at hpeer
    refine ⟨?_, ?_, ?_⟩
    · rw [hpeer, announced_append, announced_other hb, List.append_nil]
      exact h.value
    · rw [ht.sent, announced_append, announced_append, announced_other hb,
        announced_reply_other hb, List.append_nil, List.append_nil]
      exact h.said
    · rw [ht.sent, announced_append, announced_append, announced_other hb,
        announced_reply_other hb, List.append_nil, List.append_nil]
      exact h.refused

theorem refusals_append (cs ds : List (JByte × JByte)) :
    refusals (cs ++ ds) = refusals cs ++ refusals ds :=
  List.filterMap_append

theorem reply_unknown {c b : JByte} (hc : IsNegotiation c) (hb : IsUnknown b) :
    reply c b s = refusals [(c, b)] := by
  obtain ⟨hecho, hga⟩ := hb
  rcases hc with rfl | rfl | rfl | rfl <;>
    simp [reply, refusals, hecho, hga, cmdWill, cmdWont, cmdDo, cmdDont]

theorem unknown_answered {heard : List (JByte × JByte)} {c b : JByte} (hc : IsNegotiation c)
    (h : s.optionsSent.filter (IsUnknown ·.2) = refusals (heard.filter (IsUnknown ·.2)))
    (ht : Answered c b s t) :
    t.optionsSent.filter (IsUnknown ·.2) =
      refusals ((heard ++ [(c, b)]).filter (IsUnknown ·.2)) := by
  rw [ht.sent, List.filter_append, List.filter_append, refusals_append, h]
  congr 1
  by_cases hb : IsUnknown b
  · have hself : (reply c b s).filter (IsUnknown ·.2) = reply c b s := by
      refine List.filter_eq_self.mpr fun p hp => ?_
      rw [option_of_reply hp]
      exact decide_eq_true hb
    rw [hself, reply_unknown hc hb, List.filter_cons, if_pos (decide_eq_true hb), List.filter_nil]
  · have hnone : (reply c b s).filter (IsUnknown ·.2) = [] := by
      refine List.filter_eq_nil_iff.mpr fun p hp => ?_
      rw [option_of_reply hp]
      exact fun h => hb (of_decide_eq_true h)
    rw [hnone, List.filter_cons, if_neg (fun h => hb (of_decide_eq_true h)), List.filter_nil]
    rfl

theorem Dialogue.answered {heard : List (JByte × JByte)} {c b : JByte} (hc : IsNegotiation c)
    (h : Dialogue heard s) (htelnetd : s.peerIsTelnetd = true) (ht : Answered c b s t) :
    Dialogue (heard ++ [(c, b)]) t := by
  refine ⟨ht.echoInput h.echoInput, echo_answered hc h.echoInput h.echoing ht, ?_, ?_, ?_,
    unknown_answered hc h.unknown ht⟩
  · rw [ht.telnetd, htelnetd]
    intro hfalse
    cases hfalse
  · exact fun _ => peer_answered hc (h.peer htelnetd) ht
  · exact fun _ => self_answered hc (h.self htelnetd) ht

/-- What is not about options leaves the dialogue where it is. -/
theorem Dialogue.same {heard : List (JByte × JByte)} (h : Dialogue heard s)
    (hsame : SameOptions s t) (hsent : t.optionsSent = s.optionsSent)
    (hin : s.mInTelnetCommand = false → t.mInTelnetCommand = false) : Dialogue heard t := by
  refine ⟨hsame.echoInput.trans h.echoInput, ⟨?_, ?_, ?_⟩, ?_, ?_, ?_, ?_⟩
  · exact hsame.peerEchoes.trans h.echoing.value
  · rw [hsent]
    exact h.echoing.said
  · rw [hsent]
    exact h.echoing.refused
  · rw [hsame.telnetd, hsent, hsame.peer, hsame.self]
    intro htelnetd
    obtain ⟨hheard, hnone, hpeer, hself, hcommand⟩ := h.untouched htelnetd
    exact ⟨hheard, hnone, hpeer, hself, hin hcommand⟩
  · rw [hsame.telnetd, hsent, hsame.peer, hsame.peerRequest]
    exact h.peer
  · rw [hsame.telnetd, hsent, hsame.self, hsame.selfRequest]
    exact h.self
  · rw [hsent]
    exact h.unknown

theorem optionsSent_doTelnetInit : s.doTelnetInit.optionsSent =
    s.optionsSent ++ [(cmdDo, optionSuppressGoAhead), (cmdWill, optionSuppressGoAhead)] := by
  refine (optionsSent_sendOption _ _).trans ?_
  rw [show s.optionsSent ++ [(cmdDo, optionSuppressGoAhead), (cmdWill, optionSuppressGoAhead)] =
    s.optionsSent ++ [(cmdDo, optionSuppressGoAhead)] ++ [(cmdWill, optionSuppressGoAhead)] by
      simp]
  exact congrArg (· ++ [(cmdWill, optionSuppressGoAhead)]) (optionsSent_sendOption _ _)

theorem Dialogue.start {heard : List (JByte × JByte)} (h : Dialogue heard s) :
    Dialogue heard s.startCommand := by
  unfold startCommand
  split_ifs with htelnetd
  · refine ⟨h.echoInput, ⟨h.echoing.value, h.echoing.said, h.echoing.refused⟩, ?_, h.peer, h.self,
      h.unknown⟩
    intro hfalse
    rw [show s.peerIsTelnetd = false from hfalse] at htelnetd
    cases htelnetd
  · obtain ⟨rfl, hnone, _⟩ := h.untouched (eq_false_of_ne_true htelnetd)
    have hsent : (doTelnetInit { s with mInTelnetCommand := true }).optionsSent =
        [(cmdDo, optionSuppressGoAhead), (cmdWill, optionSuppressGoAhead)] := by
      rw [optionsSent_doTelnetInit]
      exact congrArg (· ++ _) hnone
    refine ⟨h.echoInput, ⟨h.echoing.value, ?_, ?_⟩, (fun hfalse => by cases hfalse), ?_, ?_, ?_⟩
    · rw [hsent]
      rfl
    · rw [hsent]
      rfl
    · rw [hsent]
      exact fun _ => ⟨rfl, rfl, rfl⟩
    · rw [hsent]
      exact fun _ => ⟨rfl, rfl, rfl⟩
    · rw [hsent]
      rfl

theorem sameOptions_goAhead :
    SameOptions s s.goAhead ∧ s.goAhead.optionsSent = s.optionsSent := by
  have hqueued : SameOptions s (s.queued [iac, cmdGa]) ∧
      (s.queued [iac, cmdGa]).optionsSent = s.optionsSent := by
    unfold queued
    split_ifs
    · exact ⟨⟨rfl, rfl, rfl, rfl, rfl, rfl, rfl⟩, optionsSent_flushWriteBuf⟩
    · exact ⟨⟨rfl, rfl, rfl, rfl, rfl, rfl, rfl⟩, rfl⟩
  obtain ⟨hq, hsent⟩ := hqueued
  unfold goAhead
  split_ifs
  · exact ⟨⟨rfl, rfl, rfl, rfl, rfl, rfl, rfl⟩, rfl⟩
  · exact ⟨⟨rfl, rfl, rfl, rfl, rfl, rfl, rfl⟩, optionsSent_flushWriteBuf⟩
  · exact ⟨⟨hq.peerEchoes, hq.peer, hq.peerRequest, hq.self, hq.selfRequest, hq.echoInput,
      hq.telnetd⟩, optionsSent_flushWriteBuf.trans hsent⟩

theorem sameOptions_echoBack (b : JByte) :
    SameOptions s (s.echoBack b) ∧ (s.echoBack b).optionsSent = s.optionsSent := by
  unfold echoBack
  split_ifs
  · exact ⟨⟨rfl, rfl, rfl, rfl, rfl, rfl, rfl⟩, optionsSent_superWrite _ (fun _ _ h => by cases h)⟩
  · exact ⟨⟨rfl, rfl, rfl, rfl, rfl, rfl, rfl⟩, rfl⟩

theorem sameOptions_doPlainCommand (c : JByte) :
    SameOptions s (s.doPlainCommand c) ∧ (s.doPlainCommand c).optionsSent = s.optionsSent := by
  have hpresence : (s.superWrite .presence).optionsSent = s.optionsSent :=
    optionsSent_superWrite _ (fun _ _ h => by cases h)
  unfold doPlainCommand
  split_ifs
  any_goals exact ⟨⟨rfl, rfl, rfl, rfl, rfl, rfl, rfl⟩, rfl⟩
  exact ⟨⟨rfl, rfl, rfl, rfl, rfl, rfl, rfl⟩, hpresence⟩

theorem sameOptions_accept (data echo : List JByte) :
    SameOptions s ((s.accept data).echoLocally echo) ∧
      ((s.accept data).echoLocally echo).optionsSent = s.optionsSent := by
  have haccept : SameOptions s (s.accept data) ∧ (s.accept data).optionsSent = s.optionsSent := by
    unfold accept queued
    split_ifs
    · exact ⟨⟨rfl, rfl, rfl, rfl, rfl, rfl, rfl⟩,
        optionsSent_superWrite _ (fun _ _ h => by cases h)⟩
    · exact ⟨⟨rfl, rfl, rfl, rfl, rfl, rfl, rfl⟩, optionsSent_flushWriteBuf⟩
    · exact ⟨⟨rfl, rfl, rfl, rfl, rfl, rfl, rfl⟩, rfl⟩
  unfold echoLocally
  split_ifs
  · exact ⟨⟨haccept.1.peerEchoes, haccept.1.peer, haccept.1.peerRequest, haccept.1.self,
      haccept.1.selfRequest, haccept.1.echoInput, haccept.1.telnetd⟩, haccept.2⟩
  · exact haccept

theorem mInTelnetCommand_of_ne_text (h : s.decoder ≠ .text) : s.mInTelnetCommand = true := by
  cases hin : s.mInTelnetCommand with
  | true => rfl
  | false =>
      refine absurd ?_ h
      unfold decoder
      rw [hin]
      rfl

/-! ## §5  Histories -/

theorem options_cons (d : Decoder) (b : JByte) (rest : List JByte) :
    d.options (b :: rest) = d.options [b] ++ (d.next b).options rest := by
  cases d <;> rfl

/-- A session the bytes `bytes` have arrived in. -/
structure Negotiated (bytes : List JByte) (s : TelnetSession) : Prop where
  settled : Settled s
  options : ∀ rest, Decoder.text.options (bytes ++ rest) =
    Decoder.text.options bytes ++ s.decoder.options rest
  dialogue : Dialogue (Decoder.text.options bytes) s
  telnetd : s.peerIsTelnetd = true ↔ iac ∈ bytes

theorem negotiated_create (isRunning : Bool) : Negotiated [] (create isRunning) := by
  refine ⟨fun _ => ⟨rfl, rfl⟩, fun _ => rfl, ⟨rfl, ⟨rfl, rfl, rfl⟩, ?_, ?_, ?_, rfl⟩, ?_⟩
  · exact fun _ => ⟨rfl, rfl, rfl, rfl, rfl⟩
  · exact fun h => by cases h
  · exact fun h => by cases h
  · constructor
    · intro h
      cases h
    · intro h
      cases h

theorem Negotiated.accept {bytes : List JByte} (h : Negotiated bytes s) (data echo : List JByte) :
    Negotiated bytes ((s.accept data).echoLocally echo) := by
  have hcommand : SameCommand s ((s.accept data).echoLocally echo) :=
    sameCommand_written data echo
  obtain ⟨hsame, hsent⟩ := sameOptions_accept (s := s) data echo
  refine ⟨hcommand.settled h.settled, ?_, h.dialogue.same hsame hsent hcommand.inCommand.trans, ?_⟩
  · rw [hcommand.decoder]
    exact h.options
  · rw [hsame.telnetd]
    exact h.telnetd

/-- The dialogue and what is known of the peer, over a byte. -/
theorem Dialogue.reads {heard : List (JByte × JByte)} {b : JByte} (h : Dialogue heard s)
    (hb : Reads s b t) : Dialogue (heard ++ s.decoder.options [b]) t ∧
      (t.peerIsTelnetd = true ↔ s.peerIsTelnetd = true ∨ b = iac) := by
  have hknown : s.decoder ≠ .text → s.peerIsTelnetd = true := by
    intro hd
    cases htelnetd : s.peerIsTelnetd with
    | true => rfl
    | false =>
        have hin := mInTelnetCommand_of_ne_text hd
        rw [(h.untouched htelnetd).2.2.2.2] at hin
        cases hin
  have hsame : ∀ {u : TelnetSession}, SameOptions s u ∧ u.optionsSent = s.optionsSent →
      (s.mInTelnetCommand = false → u.mInTelnetCommand = false) →
      (s.decoder ≠ .text ∨ b ≠ iac) → (∀ c, s.decoder ≠ .option c) →
      Dialogue (heard ++ s.decoder.options [b]) u ∧
        (u.peerIsTelnetd = true ↔ s.peerIsTelnetd = true ∨ b = iac) := by
    rintro u ⟨hoptions, hsent⟩ hin hside hnot
    have hnone : s.decoder.options [b] = [] := by
      cases hd : s.decoder with
      | option c => exact absurd hd (hnot c)
      | _ => rfl
    rw [hnone, List.append_nil, hoptions.telnetd]
    refine ⟨h.same hoptions hsent hin, ⟨.inl, ?_⟩⟩
    rintro (hs | hiac)
    · exact hs
    · rcases hside with hd | hne
      · exact hknown hd
      · exact absurd hiac hne
  cases hb with
  | iac hd hiac =>
      rw [hd]
      refine ⟨?_, fun _ => .inr hiac, fun _ => ?_⟩
      · exact (List.append_nil heard).symm ▸ h.start
      · unfold startCommand
        split_ifs with htelnetd
        · exact htelnetd
        · rfl
  | goAhead hd hga =>
      refine hsame sameOptions_goAhead sameCommand_goAhead.inCommand.trans (.inr ?_) ?_
      · rw [hga]
        decide
      · rw [hd]
        exact fun c hc => by cases hc
  | nul hd hnul =>
      refine hsame (sameOptions_echoBack 0) (sameCommand_echoBack 0).inCommand.trans (.inr ?_) ?_
      · rw [hnul.1]
        decide
      · rw [hd]
        exact fun c hc => by cases hc
  | text hd hiac _ _ =>
      obtain ⟨hoptions, hsent⟩ := sameOptions_echoBack (s := s.superProcessInput [b]) b
      refine hsame ⟨⟨hoptions.peerEchoes, hoptions.peer, hoptions.peerRequest, hoptions.self,
        hoptions.selfRequest, hoptions.echoInput, hoptions.telnetd⟩, hsent⟩
        (fun hin => (sameCommand_echoBack b).inCommand.trans hin) (.inr hiac) ?_
      rw [hd]
      exact fun c hc => by cases hc
  | plain hd =>
      refine hsame (sameOptions_doPlainCommand b) ?_ (.inl ?_) ?_
      · rw [(fields_of_command hd).1]
        exact fun hfalse => by cases hfalse
      · rw [hd]
        exact fun hfalse => by cases hfalse
      · rw [hd]
        exact fun c hc => by cases hc
  | option hd hc =>
      have htelnetd : s.peerIsTelnetd = true := hknown (by
        rw [hd]
        exact fun hfalse => by cases hfalse)
      have hanswered := answered_handleOption (s := s) hc b
      rw [hd]
      refine ⟨h.answered hc htelnetd hanswered, ?_⟩
      rw [hanswered.telnetd]
      exact ⟨.inl, fun _ => htelnetd⟩
  | lastParameter hd _ =>
      refine hsame ⟨⟨rfl, rfl, rfl, rfl, rfl, rfl, rfl⟩, rfl⟩ (fun _ => rfl) (.inl ?_) ?_
      · rw [hd]
        exact fun hfalse => by cases hfalse
      · rw [hd]
        exact fun c hc => by cases hc
  | parameter hd _ =>
      refine hsame ⟨⟨rfl, rfl, rfl, rfl, rfl, rfl, rfl⟩, rfl⟩ id (.inl ?_) ?_
      · rw [hd]
        exact fun hfalse => by cases hfalse
      · rw [hd]
        exact fun c hc => by cases hc

theorem Negotiated.receive {bytes : List JByte} (h : Negotiated bytes s) (b : JByte) :
    Negotiated (bytes ++ [b]) (s.receive b) := by
  obtain ⟨u, hreads, hu⟩ := reads_receive (s := s) b
  obtain ⟨hdecoder, hsettled⟩ := hreads.decoder h.settled
  obtain ⟨hdialogue, htelnetd⟩ := h.dialogue.reads hreads
  rw [hu]
  refine ⟨hsettled, fun rest => ?_, ?_, ?_⟩
  · rw [List.append_assoc, List.singleton_append, h.options, h.options, options_cons,
      setLast_decoder, hdecoder, List.append_assoc]
  · rw [h.options]
    exact hdialogue.same ⟨rfl, rfl, rfl, rfl, rfl, rfl, rfl⟩ rfl id
  · rw [List.mem_append, List.mem_singleton, ← h.telnetd, eq_comm (a := iac)]
    exact htelnetd

theorem negotiated_of_history {isRunning : Bool} {calls : List Call}
    (h : runAll perform calls (create isRunning) = .ok ⟨⟩ t) : Negotiated (arrived calls) t :=
  arrived_history (negotiated_create isRunning) (fun _ _ data echo hu => hu.accept data echo)
    (fun _ _ b hu => hu.receive b) h

/-- The commands heard in a history. -/
def heard (calls : List Call) : List (JByte × JByte) := Decoder.text.options (arrived calls)

/-- Suppress-go-ahead, in both directions and along every history.  Before the first `IAC`
nothing is sent and go-ahead counts as suppressed.  From then on the client believes what
it was told last (and that go-ahead is not suppressed until it is told), and all it says is
its one request and an echo of every announcement that differs from the one before. -/
theorem suppress_go_ahead {isRunning : Bool} {calls : List Call}
    (h : runAll perform calls (create isRunning) = .ok ⟨⟩ t) :
    (iac ∉ arrived calls → t.optionsSent = [] ∧ t.peerSuppressedGoAhead = true ∧
      t.suppressGoAhead = true) ∧
    (iac ∈ arrived calls →
      (t.peerSuppressedGoAhead =
          (announced cmdWill cmdWont optionSuppressGoAhead (heard calls)).getLastD false ∧
        announced cmdDo cmdDont optionSuppressGoAhead t.optionsSent =
          true :: turns (announced cmdWill cmdWont optionSuppressGoAhead (heard calls))) ∧
      t.suppressGoAhead =
          (announced cmdDo cmdDont optionSuppressGoAhead (heard calls)).getLastD false ∧
        announced cmdWill cmdWont optionSuppressGoAhead t.optionsSent =
          true :: turns (announced cmdDo cmdDont optionSuppressGoAhead (heard calls))) := by
  have hstate := negotiated_of_history h
  constructor
  · intro hiac
    have htelnetd : t.peerIsTelnetd = false :=
      eq_false_of_ne_true fun htrue => hiac (hstate.telnetd.mp htrue)
    obtain ⟨_, hnone, hpeer, hself, _⟩ := hstate.dialogue.untouched htelnetd
    exact ⟨hnone, hpeer, hself⟩
  · intro hiac
    have hpeer := hstate.dialogue.peer (hstate.telnetd.mpr hiac)
    have hself := hstate.dialogue.self (hstate.telnetd.mpr hiac)
    exact ⟨⟨hpeer.value, hpeer.said⟩, hself.value, hself.said⟩

theorem suppress_go_ahead_sample : ∃ t, runAll perform sampleCalls (create true) = .ok ⟨⟩ t ∧
    t.peerSuppressedGoAhead = false ∧
      announced cmdDo cmdDont optionSuppressGoAhead t.optionsSent = [true] := by
  obtain ⟨t, hrun, _⟩ := sampleCalls_return
  exact ⟨t, hrun, ((suppress_go_ahead hrun).2 (by decide)).1⟩

/-- Echo and all other options, along every history.  The client believes what it was told
last about the peer's echo, and answers an announcement when it changes that; it refuses
every request that it echo itself, and every option it does not know, as often as it is
asked; and it never sends input back. -/
theorem echo_and_unknown_options {isRunning : Bool} {calls : List Call}
    (h : runAll perform calls (create isRunning) = .ok ⟨⟩ t) :
    (t.peerEchoesInput = (announced cmdWill cmdWont optionEcho (heard calls)).getLastD false ∧
      announced cmdDo cmdDont optionEcho t.optionsSent =
        turns (false :: announced cmdWill cmdWont optionEcho (heard calls))) ∧
    announced cmdWill cmdWont optionEcho t.optionsSent =
      ((announced cmdDo cmdDont optionEcho (heard calls)).filter id).map not ∧
    t.optionsSent.filter (IsUnknown ·.2) = refusals ((heard calls).filter (IsUnknown ·.2)) ∧
    t.echoInput = false := by
  have hdialogue := (negotiated_of_history h).dialogue
  exact ⟨⟨hdialogue.echoing.value, hdialogue.echoing.said⟩, hdialogue.echoing.refused,
    hdialogue.unknown, hdialogue.echoInput⟩

/-- The server announces its echo twice, asks for an echo and for window sizes, which are
unknown, and offers a terminal type. -/
def askingCalls : List Call :=
  [.processInput [255, 251, 1, 255, 253, 1, 255, 253, 31] 0 9,
    .processInput [255, 253, 31, 255, 251, 24, 255, 251, 1] 0 9]

theorem echo_and_unknown_options_asked :
    ∃ t, runAll perform askingCalls (create true) = .ok ⟨⟩ t ∧
      (t.peerEchoesInput = true ∧ announced cmdDo cmdDont optionEcho t.optionsSent = [true]) ∧
      announced cmdWill cmdWont optionEcho t.optionsSent = [false] ∧
      t.optionsSent.filter (IsUnknown ·.2) = [(cmdWont, 31), (cmdWont, 31), (cmdDont, 24)] ∧
      t.echoInput = false := by
  obtain ⟨t, hrun⟩ : ∃ t, runAll perform askingCalls (create true) = .ok ⟨⟩ t := ⟨_, rfl⟩
  exact ⟨t, hrun, echo_and_unknown_options hrun⟩

end Kbox.Telnet
