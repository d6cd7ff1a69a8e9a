import Kbox.Solunar.DateTime

/-!
# What the date functions do to `TZ`

All nine functions end in the same way if they set a zone: `TZ` is put back if
it was there, and removed in any case.  So a call that sets a zone leaves `TZ`
unset, and only a process that never had one gets its own zone back.
-/

namespace Kbox.Solunar

/-- A body that leaves the environment alone. -/
def ReadsOnly {α : Type} (body : EnvM α) : Prop := ∀ env, (body env).2 = env

section Rules

variable {α β : Type}

theorem readsOnly_pure (a : α) : ReadsOnly (pure a : EnvM α) := fun _ => rfl

theorem ReadsOnly.bind {x : EnvM α} {f : α → EnvM β} (hx : ReadsOnly x)
    (hf : ∀ a, ReadsOnly (f a)) : ReadsOnly (x >>= f) := by
  intro env
  show (f (x env).1 (x env).2).2 = env
  rw [hf, hx]

theorem bind_apply (x : EnvM α) (f : α → EnvM β) (env : Environ) :
    (x >>= f) env = f (x env).1 (x env).2 := rfl

/-- What is done with the result of a call does not matter. -/
theorem bind_env {x : EnvM α} {f : α → EnvM β} (hf : ∀ a, ReadsOnly (f a)) (env : Environ) :
    ((x >>= f) env).2 = (x env).2 := hf _ _

/-- `TZ` is removed, whatever it was. -/
theorem restoreTZ_env (oldtz : Option String) (env : Environ) :
    (restoreTZ oldtz env).2 = Function.update env "TZ" none := by
  cases oldtz with
  | none => rfl
  | some oldtz => exact Function.update_idem _ _ _

/-- A body that is run in a zone leaves `TZ` unset. -/
theorem zoned_some {body : EnvM α} (hbody : ReadsOnly body) (tz : String) (env : Environ) :
    (zoned (some tz) body env).2 = Function.update env "TZ" none := by
  show (restoreTZ (env "TZ") (body (Function.update env "TZ" (some tz))).2).2 = _
  rw [hbody, restoreTZ_env, Function.update_idem]

/-- The environment behind `zoned`. -/
theorem zoned_env {body : EnvM α} (hbody : ReadsOnly body) (tz : Option String) (env : Environ) :
    (zoned tz body env).2 = if tz = none then env else Function.update env "TZ" none := by
  cases tz with
  | none => exact hbody env
  | some tz => exact zoned_some hbody tz env

end Rules

namespace DateTime

variable [Libc]

theorem readsOnly_mktime (tm : Tm) : ReadsOnly (mktime tm) := fun _ => rfl

theorem readsOnly_localtime (utime : Int) : ReadsOnly (localtime utime) := fun _ => rfl

theorem readsOnly_ctime (utime : Int) : ReadsOnly (ctime utime) := fun _ => rfl

theorem readsOnly_parse (now : Int) (str fmt : String) : ReadsOnly (parse now str fmt) := by
  apply (readsOnly_localtime now).bind
  intro tm
  exact readsOnly_pure _

theorem readsOnly_parseAny (now : Int) (str : String) (fmts : List String) :
    ReadsOnly (parseAny now str fmts) := by
  induction fmts with
  | nil => exact readsOnly_pure _
  | cons fmt fmts ih =>
      apply (readsOnly_parse now str fmt).bind
      rintro ⟨tm, matched⟩
      cases matched with
      | true => exact readsOnly_pure _
      | false => exact ih

/-- Whether a call sets a zone: one is given, and there is something to evaluate in it. -/
def Call.SetsZone (call : Call) (env : Environ) : Prop :=
  match call with
  | .new_parse now str tz utc =>
      (parseAny now str formats env).1 ≠ none ∧ zoneOf tz utc ≠ none
  | .new_dmy_name _ _ _ _ tz utc => zoneOf tz utc ≠ none
  | .to_string_local _ tz => tz ≠ none
  | .to_string_UTC _ => True
  | .time_to_string_local _ tz => tz ≠ none
  | .time_to_string_UTC _ => True
  | .add_days _ _ tz utc => zoneOf tz utc ≠ none
  | .get_ymdhms _ tz utc => zoneOf tz utc ≠ none
  | .get_jan_first _ tz utc => zoneOf tz utc ≠ none

theorem new_parse_env (now : Int) (str : String) (tz : Option String) (utc : Bool)
    (env : Environ) : (new_parse now str tz utc env).2 =
      if (parseAny now str formats env).1 = none ∨ zoneOf tz utc = none then env
      else Function.update env "TZ" none := by
  have hparse := readsOnly_parseAny now str formats env
  rw [new_parse, bind_apply, hparse]
  cases (parseAny now str formats env).1 with
  | none => rw [if_pos (.inl rfl)]; rfl
  | some tm =>
      rw [bind_env fun _ => readsOnly_pure _, zoned_env (readsOnly_mktime tm)]
      simp only [reduceCtorEq, false_or]

/-- What a call does to the environment. -/
theorem Call.body_env (call : Call) (env : Environ) :
    (call.SetsZone env → (call.body env).2 = Function.update env "TZ" none) ∧
    (¬ call.SetsZone env → (call.body env).2 = env) := by
  have hzoned {α : Type} {body : EnvM α} (hbody : ReadsOnly body) (tz : Option String) :
      (tz ≠ none → (zoned tz body env).2 = Function.update env "TZ" none) ∧
        (¬ tz ≠ none → (zoned tz body env).2 = env) := by
    rw [zoned_env hbody]
    exact ⟨fun h => if_neg h, fun h => if_pos (not_not.mp h)⟩
  cases call with
  | new_parse now str tz utc =>
      show (_ → (DateTime.new_parse now str tz utc env).2 = _) ∧
        (_ → (DateTime.new_parse now str tz utc env).2 = _)
      rw [new_parse_env]
      constructor
      · rintro ⟨hparse, hzone⟩
        exact if_neg fun h => h.elim hparse hzone
      · intro hnot
        refine if_pos ?_
        by_contra hnone
        obtain ⟨hparse, hzone⟩ := not_or.mp hnone
        exact hnot ⟨hparse, hzone⟩
  | new_dmy_name day month year name tz utc =>
      exact hzoned (readsOnly_mktime _) _
  | to_string_local self tz =>
      exact hzoned ((readsOnly_ctime self.utime).bind fun s => readsOnly_pure (chomp s)) tz
  | to_string_UTC self =>
      have h := hzoned ((readsOnly_ctime self.utime).bind fun s => readsOnly_pure (chomp s))
        (some "GMT0")
      exact ⟨fun _ => h.1 (by simp), fun hnot => absurd trivial hnot⟩
  | time_to_string_local self tz =>
      exact hzoned ((readsOnly_localtime self.utime).bind fun tm =>
        readsOnly_pure (hourMinute tm)) tz
  | time_to_string_UTC self =>
      have h := hzoned ((readsOnly_localtime self.utime).bind fun tm =>
        readsOnly_pure (hourMinute tm)) (some "GMT0")
      exact ⟨fun _ => h.1 (by simp), fun hnot => absurd trivial hnot⟩
  | add_days self days tz utc =>
      exact hzoned ((readsOnly_localtime _).bind fun _ => readsOnly_mktime _) _
  | get_ymdhms self tz utc =>
      exact hzoned ((readsOnly_localtime self.utime).bind fun tm => readsOnly_pure
        (tm.tm_year + 1900, tm.tm_mon + 1, tm.tm_mday, tm.tm_hour, tm.tm_min, tm.tm_sec))
        (zoneOf tz utc)
  | get_jan_first self tz utc =>
      exact hzoned ((readsOnly_localtime self.utime).bind fun tm =>
        (readsOnly_mktime { tm with
          tm_mday := 0, tm_mon := 0, tm_hour := 0, tm_min := 0, tm_sec := 0, tm_isdst := -1 }).bind
          fun utime => readsOnly_pure (new_utime utime)) (zoneOf tz utc)

/-- `TZ` after each call is what it was before. -/
def RestoresTZ (calls : List Call) (env : Environ) : Prop :=
  ∀ i call, calls[i]? = some call →
    (call.body (run (calls.take i) env)).2 "TZ" = run (calls.take i) env "TZ"

theorem restoresTZ_cons (call : Call) (calls : List Call) (env : Environ) :
    RestoresTZ (call :: calls) env ↔
      (call.body env).2 "TZ" = env "TZ" ∧ RestoresTZ calls (call.body env).2 := by
  constructor
  · intro h
    exact ⟨h 0 call rfl, fun i c hc => h (i + 1) c hc⟩
  · rintro ⟨hfirst, hrest⟩ i c hc
    rcases i with _ | i
    · cases hc
      exact hfirst
    · exact hrest i c hc

/-- **`TZ` is restored** by every call of a sequence if and only if it was not set, or no
call sets a zone. -/
theorem tz_restored_iff (calls : List Call) (env : Environ) :
    RestoresTZ calls env ↔ env "TZ" = none ∨ ∀ call ∈ calls, ¬ call.SetsZone env := by
  induction calls generalizing env with
  | nil =>
      constructor
      · intro _
        exact .inr fun call hcall => absurd hcall List.not_mem_nil
      · rintro _ i call ⟨⟩
  | cons call calls ih =>
      rw [restoresTZ_cons, ih, List.forall_mem_cons]
      obtain ⟨hsets, hkeeps⟩ := call.body_env env
      by_cases hzone : call.SetsZone env
      · rw [hsets hzone, Function.update_self]
        constructor
        · rintro ⟨hnone, _⟩
          exact .inl hnone.symm
        · rintro (hnone | ⟨hnot, _⟩)
          · exact ⟨hnone.symm, .inl rfl⟩
          · exact absurd hzone hnot
      · rw [hkeeps hzone]
        constructor
        · rintro ⟨_, hnone | hrest⟩
          · exact .inl hnone
          · exact .inr ⟨hzone, hrest⟩
        · rintro (hnone | ⟨_, hrest⟩)
          · exact ⟨rfl, .inl hnone⟩
          · exact ⟨rfl, .inr hrest⟩

/-- A library that knows January 1970, in UTC. -/
@[reducible] def january1970 : Libc where
  localtime _ t := ⟨t % 60, t / 60 % 60, t / 3600 % 24, t / 86400 + 1, 0, 70, 0⟩
  mktime _ tm := ((tm.tm_mday - 1) * 24 + tm.tm_hour) * 3600 + tm.tm_min * 60 + tm.tm_sec
  ctime _ _ := "Thu Jan  1 00:00:00 1970\n".toList
  strptime _ _ tm := (tm, none)

omit [Libc] in
/-- A process in the zone of Paris prints a time in UTC. -/
theorem tz_lost : let _ := january1970
    ¬ RestoresTZ [.time_to_string_UTC ⟨0, none⟩]
      (Function.update (fun _ => none) "TZ" (some "Europe/Paris")) := by
  intro _ h
  have hfirst := h 0 _ rfl
  have hafter := (Call.body_env (.time_to_string_UTC ⟨0, none⟩)
    (Function.update (fun _ => none) "TZ" (some "Europe/Paris"))).1 trivial
  rw [List.take_zero] at hfirst
  simp only [run, List.foldl_nil] at hfirst
  rw [hafter, Function.update_self, Function.update_self] at hfirst
  cases hfirst

end DateTime

end Kbox.Solunar
