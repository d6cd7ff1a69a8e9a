import Kbox.Windows.SessionList

/-!
# The windows of `jackpal.androidterm.Term`

The service keeps the sessions; the activity keeps a view for each of them in its
flipper, in the same order, and goes from a view to its session and back by position.
Sessions come and go while the activity is in front, paused or not there at all: they
exit, they are closed from the window list, and another application opens them and sends
an intent.  What keeps the two lists together is the callback the activity registers with
the list, the comparison it makes when it is resumed, and the intents.

The children of the flipper are given by their sessions.  Which of them is displayed
belongs to the flipper, so the position is a parameter of what is done to it.
-/

namespace Kbox.Windows

open Kbox.Framework
open Relation (ReflTransGen)

variable {S : Type} [DecidableEq S]

inductive Callback where
  /-- `Term` itself. -/
  | term
  /-- A `WindowListAdapter`. -/
  | adapter
deriving DecidableEq, Repr

/-- The service and the activity. -/
structure Term (S : Type) where
  sessions : SessionList S Callback
  /-- The sessions of the children of `mViewFlipper`. -/
  views : List S
  /-- Whether `mTermSessions` is set. -/
  connected : Bool
  /-- Between `onResume` and `onPause`. -/
  resumed : Bool
  /-- `finish()` has been called. -/
  finished : Bool
  /-- How many intents of `openNewWindow` are on their way. -/
  intents : Nat

namespace Term

/-- The activity as it is created, over the sessions of a service. -/
def create (sessions : SessionList S Callback) : Term S where
  sessions := sessions
  views := []
  connected := false
  resumed := false
  finished := false
  intents := 0

/-- The loop of `onUpdate` and `onResume`: views without a session are removed. -/
def removeStaleViews (t : Term S) : Term S :=
  { t with views := t.views.filter (· ∈ t.sessions.elements) }

def removeStaleIfFewer (t : Term S) : Term S :=
  if t.sessions.elements.length < t.views.length then t.removeStaleViews else t

/-- Called when the list of sessions changes. -/
def onUpdate (t : Term S) : Term S :=
  if !t.connected then t
  else if t.sessions.elements.length = 0 then { t with finished := true }
  else t.removeStaleIfFewer

/-- `onUpdate` of the callbacks the list has run since `before`. -/
def notified (before : SessionList S Callback) (t : Term S) : Term S :=
  (t.sessions.notified.drop before.notified.length).foldl
    (fun t callback => if callback = .term then t.onUpdate else t) t

/-- A change of the list, and the callbacks it runs. -/
def change (sessions : SessionList S Callback) (t : Term S) : Term S :=
  { t with sessions := sessions }.notified t.sessions

/-- `populateViewFlipper`, with the session it creates when there is none. -/
def populateViewFlipper (created : S) (t : Term S) : Term S :=
  let t := { t with sessions := t.sessions.addCallback .term, connected := true }
  let t := if t.sessions.elements.length = 0 then t.change (t.sessions.add created) else t
  { t with views := t.views ++ t.sessions.elements }

def onResume (t : Term S) : Term S :=
  if t.connected then
    { t with sessions := t.sessions.addCallback .term, resumed := true }.removeStaleIfFewer
  else { t with resumed := true }

def onPause (t : Term S) : Term S :=
  if t.connected then
    { t with sessions := t.sessions.removeCallback .term, resumed := false }
  else { t with resumed := false }

def doCreateNewWindow (created : S) (t : Term S) : Term S :=
  if t.connected then
    let t := t.change (t.sessions.add created)
    { t with views := t.views ++ [created] }
  else t

/-- The service is told that the session has ended, after the list has dropped it. -/
def onSessionFinish (session : S) (t : Term S) : Term S :=
  t.change (t.sessions.remove session)

/-- `mViewFlipper.removeView(view)` -/
def removeView (view : S) (t : Term S) : Term S :=
  { t with views := t.views.erase view }

def finishIfEmpty (t : Term S) : Term S :=
  if t.sessions.elements.length = 0 then { t with finished := true } else t

/-- `displayed` is the position of the current view; `none` is an index out of range. -/
def doCloseWindow (displayed : Nat) (t : Term S) : Option (Term S) :=
  if !t.connected then some t
  else
    t.views[displayed]?.elim (some t) fun view =>
      t.sessions.elements[displayed]?.bind fun session =>
        (t.sessions.removeAt displayed).map fun sessions =>
          (((t.change sessions).onSessionFinish session).removeView view).finishIfEmpty

/-- The close button of the window list. -/
def closeFromList (position : Nat) (t : Term S) : Option (Term S) :=
  t.sessions.elements[position]?.bind fun session =>
    (t.sessions.removeAt position).map fun sessions => (t.change sessions).onSessionFinish session

/-- `openNewWindow` of `RemoteInterface`: the intent is sent behind the session. -/
def openNewWindow (created : S) (t : Term S) : Term S :=
  let t := t.change (t.sessions.add created)
  { t with intents := t.intents + 1 }

/-- `onNewIntent` for an intent of `openNewWindow`: a view for the last session.  `none` is
the exception on an empty list. -/
def onNewIntent (t : Term S) : Option (Term S) :=
  let t := { t with intents := t.intents - 1 }
  if !t.connected then some t
  else t.sessions.elements.getLast?.map fun session => { t with views := t.views ++ [session] }

end Term

open Term

/-! ## §1  What a change of the list does -/

variable {t u : Term S}

/-- `onUpdate`, if the activity is registered. -/
def settle (t : Term S) : Term S :=
  if .term ∈ t.sessions.callbacks then t.onUpdate else t

theorem onUpdate_sessions : t.onUpdate.sessions = t.sessions := by
  unfold onUpdate removeStaleIfFewer
  split_ifs <;> rfl

theorem removeStaleIfFewer_twice :
    t.removeStaleIfFewer.removeStaleIfFewer = t.removeStaleIfFewer := by
  have hagain : t.removeStaleViews.removeStaleViews = t.removeStaleViews := by
    unfold removeStaleViews
    simp only [List.filter_filter, Bool.and_self]
  unfold removeStaleIfFewer
  split_ifs
  · exact hagain
  · rfl
  · rfl

theorem onUpdate_onUpdate : t.onUpdate.onUpdate = t.onUpdate := by
  by_cases hconnected : (!t.connected) = true
  · have hsame : t.onUpdate = t := by
      unfold onUpdate
      rw [if_pos hconnected]
    rw [hsame, hsame]
  · by_cases hempty : t.sessions.elements.length = 0
    · have hfinish : t.onUpdate = { t with finished := true } := by
        unfold onUpdate
        rw [if_neg hconnected, if_pos hempty]
      rw [hfinish]
      unfold onUpdate
      rw [if_neg hconnected, if_pos hempty]
    · have hstale : t.onUpdate = t.removeStaleIfFewer := by
        unfold onUpdate
        rw [if_neg hconnected, if_neg hempty]
      have hkeeps : t.removeStaleIfFewer.connected = t.connected ∧
          t.removeStaleIfFewer.sessions = t.sessions := by
        unfold removeStaleIfFewer
        split_ifs <;> exact ⟨rfl, rfl⟩
      rw [hstale]
      unfold onUpdate
      rw [hkeeps.1, hkeeps.2, if_neg hconnected, if_neg hempty]
      exact removeStaleIfFewer_twice

theorem foldl_onUpdate (callbacks : List Callback) :
    callbacks.foldl (fun t callback => if callback = .term then t.onUpdate else t) t =
      if .term ∈ callbacks then t.onUpdate else t := by
  induction callbacks generalizing t with
  | nil => rfl
  | cons c callbacks ih =>
      rw [List.foldl_cons, ih]
      cases c with
      | adapter => simp
      | term =>
          simp only [if_true, List.mem_cons, true_or]
          split_ifs
          · exact onUpdate_onUpdate
          · rfl

/-- An operation of the list that notifies. -/
theorem change_notifying {l : SessionList S Callback}
    (h : l.notified = t.sessions.notified ++ l.callbacks) :
    t.change l = settle { t with sessions := l } := by
  unfold Term.change Term.notified settle
  rw [h, List.drop_left]
  exact foldl_onUpdate _

theorem change_same : t.change t.sessions = t := by
  unfold Term.change Term.notified
  rw [List.drop_length]
  rfl

/-! ## §2  The two lists -/

/-- Every session has a view, in order, but for those whose intent is on its way; views of
sessions that have ended may be among them. -/
structure Tracked (t : Term S) : Prop where
  nodup : t.sessions.elements.Nodup
  views : t.views.Nodup
  limit : t.intents ≤ 1
  cover : t.connected = true → ∃ opened, t.sessions.elements =
    t.views.filter (· ∈ t.sessions.elements) ++ opened ∧ opened.length ≤ t.intents
  absent : t.connected = false → t.views = []
  callback : t.connected = true → t.resumed = true → .term ∈ t.sessions.callbacks

/-- In front, and with no intent on its way, the views are those of the sessions. -/
structure Consistent (t : Term S) : Prop extends Tracked t where
  agree : t.connected = true → t.resumed = true → t.intents = 0 → t.finished = false →
    t.views = t.sessions.elements

theorem Tracked.elements_of_quiet (h : Tracked t) (hconnected : t.connected = true)
    (hquiet : t.intents = 0) :
    t.sessions.elements = t.views.filter (· ∈ t.sessions.elements) := by
  obtain ⟨opened, hcover, hlength⟩ := h.cover hconnected
  have hnone : opened = [] := List.length_eq_zero_iff.mp (by omega)
  rw [hnone, List.append_nil] at hcover
  exact hcover

/-- With enough sessions for the views, none of these is stale. -/
theorem Tracked.views_of_quiet (h : Tracked t) (hconnected : t.connected = true)
    (hquiet : t.intents = 0) (hlength : ¬ t.sessions.elements.length < t.views.length) :
    t.views = t.sessions.elements := by
  have helements := h.elements_of_quiet hconnected hquiet
  have hall : t.views.filter (· ∈ t.sessions.elements) = t.views := by
    refine List.filter_eq_self.mpr (List.length_filter_eq_length_iff.mp ?_)
    have hle := List.length_filter_le (· ∈ t.sessions.elements) t.views
    rw [← helements] at hle ⊢
    omega
  exact (helements.trans hall).symm

theorem Tracked.finish (h : Tracked t) : Tracked { t with finished := true } :=
  ⟨h.nodup, h.views, h.limit, h.cover, h.absent, h.callback⟩

theorem Tracked.removeStaleViews (h : Tracked t) : Tracked t.removeStaleViews := by
  refine ⟨h.nodup, h.views.filter _, h.limit, fun hconnected => ?_, fun hconnected => ?_,
    h.callback⟩
  · obtain ⟨opened, hcover, hlength⟩ := h.cover hconnected
    refine ⟨opened, ?_, hlength⟩
    have hagain : (t.views.filter (· ∈ t.sessions.elements)).filter (· ∈ t.sessions.elements) =
        t.views.filter (· ∈ t.sessions.elements) := by
      simp
    exact hcover.trans (congrArg (· ++ opened) hagain.symm)
  · have hviews := h.absent hconnected
    simp only [Term.removeStaleViews, hviews, List.filter_nil]

theorem Tracked.removeStaleIfFewer (h : Tracked t) : Consistent t.removeStaleIfFewer := by
  unfold Term.removeStaleIfFewer
  split_ifs with hless
  · exact ⟨h.removeStaleViews, fun htrue _ hquiet _ => (h.elements_of_quiet htrue hquiet).symm⟩
  · exact ⟨h, fun htrue _ hquiet _ => h.views_of_quiet htrue hquiet hless⟩

theorem Tracked.settle (h : Tracked t) : Consistent (settle t) := by
  unfold Windows.settle
  split_ifs with hcallback
  · unfold onUpdate
    split_ifs with hconnected hempty
    · refine ⟨h, fun htrue => ?_⟩
      rw [htrue] at hconnected
      cases hconnected
    · exact ⟨h.finish, fun _ _ _ hfalse => by cases hfalse⟩
    · exact h.removeStaleIfFewer
  · exact ⟨h, fun htrue hresumed _ _ => absurd (h.callback htrue hresumed) hcallback⟩

theorem settle_sessions : (settle t).sessions = t.sessions := by
  unfold settle
  split_ifs
  · exact onUpdate_sessions
  · rfl

theorem settle_fields : (settle t).connected = t.connected ∧ (settle t).resumed = t.resumed ∧
    (settle t).intents = t.intents := by
  unfold settle onUpdate removeStaleIfFewer
  split_ifs <;> exact ⟨rfl, rfl, rfl⟩

/-! ## §3  Sessions that end -/

theorem remove_notifies {x : S} (hx : x ∈ t.sessions.elements) :
    t.onSessionFinish x = settle { t with sessions := t.sessions.remove x } := by
  refine change_notifying ?_
  unfold SessionList.remove
  rw [if_pos hx]
  rfl

theorem onSessionFinish_of_not_mem {x : S} (hx : x ∉ t.sessions.elements) :
    t.onSessionFinish x = t := by
  have hsame : t.sessions.remove x = t.sessions := by
    unfold SessionList.remove
    rw [if_neg hx]
  unfold onSessionFinish
  rw [hsame]
  exact change_same

theorem elements_remove {l : SessionList S Callback} (h : l.elements.Nodup) (x : S) :
    (l.remove x).elements = l.elements.filter (· ≠ x) ∧ (l.remove x).callbacks = l.callbacks := by
  unfold SessionList.remove
  split_ifs with hx
  · refine ⟨(h.erase_eq_filter x).trans ?_, rfl⟩
    refine List.filter_congr fun y _ => ?_
    rw [bne, Bool.beq_eq_decide_eq, decide_not]
  · refine ⟨(List.filter_eq_self.mpr fun y hy => ?_).symm, rfl⟩
    exact decide_eq_true fun heq => hx (heq ▸ hy)

theorem Tracked.remove (h : Tracked t) (x : S) :
    Tracked { t with sessions := t.sessions.remove x } := by
  obtain ⟨helements, hcallbacks⟩ := elements_remove h.nodup x
  refine ⟨?_, h.views, h.limit, fun hconnected => ?_, h.absent, ?_⟩
  · simp only [helements]
    exact h.nodup.filter _
  · obtain ⟨opened, hcover, hlength⟩ := h.cover hconnected
    refine ⟨opened.filter (· ≠ x), ?_, Nat.le_trans (List.length_filter_le _ _) hlength⟩
    simp only [helements]
    conv_lhs => rw [hcover, List.filter_append, List.filter_filter]
    congr 1
    refine List.filter_congr fun y _ => ?_
    rw [Bool.eq_iff_iff]
    simp [List.mem_filter, and_comm]
  · simp only [hcallbacks]
    exact h.callback

theorem Consistent.onSessionFinish (h : Consistent t) (x : S) :
    Consistent (t.onSessionFinish x) := by
  by_cases hx : x ∈ t.sessions.elements
  · rw [remove_notifies hx]
    exact (h.toTracked.remove x).settle
  · rw [onSessionFinish_of_not_mem hx]
    exact h

/-! ## §4  What the activity and the other applications do -/

inductive Event (S : Type) where
  /-- The service is connected. -/
  | populateViewFlipper (created : S)
  | onResume
  | onPause
  | doCreateNewWindow (created : S)
  | doCloseWindow (displayed : Nat)
  /-- A process has exited. -/
  | onSessionFinish (session : S)
  | closeFromList (position : Nat)
  | openNewWindow (created : S)
  | onNewIntent

def Event.perform : Event S → Term S → Option (Term S)
  | .populateViewFlipper created, t => some (t.populateViewFlipper created)
  | .onResume, t => some t.onResume
  | .onPause, t => some t.onPause
  | .doCreateNewWindow created, t => some (t.doCreateNewWindow created)
  | .doCloseWindow displayed, t => t.doCloseWindow displayed
  | .onSessionFinish session, t => some (t.onSessionFinish session)
  | .closeFromList position, t => t.closeFromList position
  | .openNewWindow created, t => some (t.openNewWindow created)
  | .onNewIntent, t => t.onNewIntent

/-- A session that has just been made. -/
def IsNew (created : S) (t : Term S) : Prop :=
  created ∉ t.sessions.elements ∧ created ∉ t.views

/-- The order events come in.  The activity is paused before it is given an intent, and its
windows are closed from its own dialog while it is in front.  What is asked of the other
applications is that one intent arrives before the next window is opened or closed, and
while the session it is for is still there. -/
def Event.Orderly (t : Term S) : Event S → Prop
  | .populateViewFlipper _ => t.connected = false
  | .onResume => t.resumed = false
  | .onPause => t.resumed = true
  | .doCreateNewWindow created => IsNew created t ∧ t.intents = 0
  | .doCloseWindow _ => t.resumed = true ∧ t.intents = 0 ∧ t.finished = false
  | .onSessionFinish _ => True
  | .closeFromList _ => True
  | .openNewWindow created => IsNew created t ∧ t.intents = 0
  | .onNewIntent => t.resumed = false ∧ t.intents = 1 ∧
      (t.connected = true → ∃ x ∈ t.sessions.elements, x ∉ t.views)

theorem change_add (created : S) :
    t.change (t.sessions.add created) = settle { t with sessions := t.sessions.add created } :=
  change_notifying rfl

theorem change_removeAt {sessions : SessionList S Callback} {position : Nat} {session : S}
    (hnodup : t.sessions.elements.Nodup) (hsession : t.sessions.elements[position]? = some session)
    (h : t.sessions.removeAt position = some sessions) :
    t.change sessions = t.onSessionFinish session := by
  obtain ⟨object, hobject, rfl⟩ := Option.map_eq_some_iff.mp h
  obtain rfl := Option.some.inj (hobject.symm.trans hsession)
  obtain ⟨hposition, hget⟩ := List.getElem?_eq_some_iff.mp hsession
  have herase : t.sessions.elements.eraseIdx position = t.sessions.elements.erase object := by
    rw [← hget, hnodup.erase_getElem]
  unfold Term.onSessionFinish SessionList.remove
  rw [if_pos (hget ▸ List.getElem_mem hposition), herase]

theorem not_mem_onSessionFinish (h : Tracked t) (x : S) :
    x ∉ (t.onSessionFinish x).sessions.elements := by
  by_cases hx : x ∈ t.sessions.elements
  · rw [remove_notifies hx, settle_sessions, (elements_remove h.nodup x).1]
    simp
  · rw [onSessionFinish_of_not_mem hx]
    exact hx

theorem onSessionFinish_twice (h : Tracked t) (x : S) :
    (t.onSessionFinish x).onSessionFinish x = t.onSessionFinish x :=
  onSessionFinish_of_not_mem (not_mem_onSessionFinish h x)

theorem Consistent.closeFromList (h : Consistent t) {position : Nat}
    (hclose : t.closeFromList position = some u) : Consistent u := by
  obtain ⟨session, hsession, hrest⟩ := Option.bind_eq_some_iff.mp hclose
  obtain ⟨sessions, hremove, rfl⟩ := Option.map_eq_some_iff.mp hrest
  rw [change_removeAt h.nodup hsession hremove, onSessionFinish_twice h.toTracked]
  exact h.onSessionFinish session

/-- A view whose session has ended may go. -/
theorem Consistent.eraseView (h : Consistent t) {x : S} (hx : x ∉ t.sessions.elements) :
    Consistent (t.removeView x) := by
  have hfilter : (t.views.erase x).filter (· ∈ t.sessions.elements) =
      t.views.filter (· ∈ t.sessions.elements) := by
    rw [h.views.erase_eq_filter, List.filter_filter]
    refine List.filter_congr fun y _ => ?_
    rw [Bool.eq_iff_iff]
    simp only [Bool.and_eq_true, decide_eq_true_eq, bne_iff_ne]
    exact ⟨fun hy => hy.1, fun hy => ⟨hy, fun heq => hx (heq ▸ hy)⟩⟩
  refine ⟨⟨h.nodup, h.views.erase x, h.limit, fun hconnected => ?_, fun hconnected => ?_,
    h.callback⟩, fun hconnected hresumed hquiet hopen => ?_⟩
  · obtain ⟨opened, hcover, hlength⟩ := h.cover hconnected
    exact ⟨opened, hcover.trans (congrArg (· ++ opened) hfilter.symm), hlength⟩
  · have hviews := h.absent hconnected
    simp only [Term.removeView, hviews, List.erase_nil]
  · have hagree := h.agree hconnected hresumed hquiet hopen
    simp only [Term.removeView, hagree]
    exact List.erase_of_not_mem hx

theorem Consistent.finishIfEmpty (h : Consistent t) : Consistent t.finishIfEmpty := by
  unfold Term.finishIfEmpty
  split_ifs
  · exact ⟨h.toTracked.finish, fun _ _ _ hfalse => by cases hfalse⟩
  · exact h

theorem Consistent.doCloseWindow (h : Consistent t) {displayed : Nat}
    (hclose : t.doCloseWindow displayed = some u) (hresumed : t.resumed = true)
    (hquiet : t.intents = 0) (hopen : t.finished = false) : Consistent u := by
  unfold Term.doCloseWindow at hclose
  split_ifs at hclose with hconnected
  · cases hclose
    exact h
  have htrue : t.connected = true := by simpa using hconnected
  have hagree := h.agree htrue hresumed hquiet hopen
  cases hview : t.views[displayed]? with
  | none =>
      rw [hview] at hclose
      cases hclose
      exact h
  | some view =>
      rw [hview] at hclose
      have hsession : t.sessions.elements[displayed]? = some view := hagree ▸ hview
      obtain ⟨session, hget, hrest⟩ := Option.bind_eq_some_iff.mp hclose
      obtain rfl := Option.some.inj (hget.symm.trans hsession)
      obtain ⟨sessions, hremove, rfl⟩ := Option.map_eq_some_iff.mp hrest
      rw [change_removeAt h.nodup hsession hremove, onSessionFinish_twice h.toTracked]
      exact ((h.onSessionFinish session).eraseView
        (not_mem_onSessionFinish h.toTracked session)).finishIfEmpty

theorem Consistent.onPause (h : Consistent t) : Consistent t.onPause := by
  unfold Term.onPause
  split_ifs
  · exact ⟨⟨h.nodup, h.views, h.limit, h.cover, h.absent, fun _ hfalse => by cases hfalse⟩,
      fun _ hfalse _ _ => by cases hfalse⟩
  · exact ⟨⟨h.nodup, h.views, h.limit, h.cover, h.absent, fun _ hfalse => by cases hfalse⟩,
      fun _ hfalse _ _ => by cases hfalse⟩

theorem Consistent.onResume (h : Consistent t) : Consistent t.onResume := by
  unfold Term.onResume
  split_ifs with hconnected
  · have htracked : Tracked { t with sessions := t.sessions.addCallback .term, resumed := true } :=
      ⟨h.nodup, h.views, h.limit, h.cover, h.absent,
        fun _ _ => List.mem_append_right _ List.mem_cons_self⟩
    exact htracked.removeStaleIfFewer
  · exact ⟨⟨h.nodup, h.views, h.limit, h.cover, h.absent,
      fun htrue _ => absurd htrue hconnected⟩, fun htrue _ _ _ => absurd htrue hconnected⟩

/-- With a session for which a view is to come. -/
def opening (created : S) (t : Term S) : Term S :=
  { t with sessions := t.sessions.add created, intents := 1 }

theorem Tracked.opening (h : Tracked t) {created : S} (hnew : IsNew created t)
    (hquiet : t.intents = 0) : Tracked (opening created t) := by
  refine ⟨?_, h.views, Nat.le_refl 1, fun hconnected => ⟨[created], ?_, Nat.le_refl 1⟩, h.absent,
    h.callback⟩
  · exact List.nodup_append'.mpr ⟨h.nodup, List.nodup_singleton _, fun x hx hmem =>
      hnew.1 (List.mem_singleton.mp hmem ▸ hx)⟩
  · have hsame : t.views.filter (· ∈ (t.sessions.add created).elements) =
        t.views.filter (· ∈ t.sessions.elements) := by
      refine List.filter_congr fun y hy => ?_
      have hne : y ≠ created := fun heq => hnew.2 (heq ▸ hy)
      simp [SessionList.add, SessionList.notifyChange, SessionList.setTitleChangedListener,
        SessionList.withElements, hne]
    have helements := h.elements_of_quiet hconnected hquiet
    exact (congrArg (· ++ [created]) (helements.trans hsame.symm))

theorem settle_intents (n : Nat) : settle { t with intents := n } =
    { settle t with intents := n } := by
  unfold settle onUpdate removeStaleIfFewer
  split_ifs <;> rfl

theorem openNewWindow_eq (created : S) (hquiet : t.intents = 0) :
    t.openNewWindow created = settle (opening created t) := by
  unfold Term.openNewWindow
  rw [change_add]
  refine Eq.trans ?_ (settle_intents (t := { t with sessions := t.sessions.add created }) 1).symm
  have hsettled : (settle { t with sessions := t.sessions.add created }).intents = 0 :=
    settle_fields.2.2.trans hquiet
  simp only [hsettled]

theorem Consistent.openNewWindow (h : Consistent t) {created : S} (hnew : IsNew created t)
    (hquiet : t.intents = 0) : Consistent (t.openNewWindow created) := by
  rw [openNewWindow_eq created hquiet]
  exact (h.toTracked.opening hnew hquiet).settle

/-- The view that was to come. -/
theorem Tracked.addView (h : Tracked t) (hconnected : t.connected = true)
    (hone : t.intents = 1) {x : S} (hlast : t.sessions.elements.getLast? = some x)
    (hopened : ∃ y ∈ t.sessions.elements, y ∉ t.views) :
    Tracked { t with views := t.views ++ [x], intents := 0 } := by
  obtain ⟨opened, hcover, hlength⟩ := h.cover hconnected
  obtain ⟨y, hy, hnoview⟩ := hopened
  have hmem : y ∈ opened := by
    rw [hcover, List.mem_append] at hy
    exact hy.resolve_left fun hfilter => hnoview (List.mem_of_mem_filter hfilter)
  obtain ⟨z, rfl⟩ : ∃ z, opened = [z] := by
    refine List.length_eq_one_iff.mp ?_
    have hpos := List.length_pos_of_mem hmem
    omega
  obtain rfl := List.mem_singleton.mp hmem
  rw [hcover, List.getLast?_append, List.getLast?_singleton, Option.some_or] at hlast
  obtain rfl := Option.some.inj hlast
  refine ⟨h.nodup, ?_, Nat.zero_le 1, fun _ => ⟨[], ?_, Nat.le_refl 0⟩, fun hfalse => ?_,
    h.callback⟩
  · exact List.nodup_append'.mpr ⟨h.views, List.nodup_singleton _, fun x hx hmem =>
      hnoview (List.mem_singleton.mp hmem ▸ hx)⟩
  · have hin : decide (y ∈ t.sessions.elements) = true := by
      rw [decide_eq_true_eq, hcover]
      exact List.mem_append_right _ List.mem_cons_self
    simp only [List.filter_append, List.filter_cons, hin, if_true, List.filter_nil,
      List.append_nil]
    exact hcover
  · rw [hconnected] at hfalse
    cases hfalse

theorem Consistent.onNewIntent (h : Consistent t) (hone : t.intents = 1)
    (hresumed : t.resumed = false)
    (hopened : t.connected = true → ∃ x ∈ t.sessions.elements, x ∉ t.views)
    (hintent : t.onNewIntent = some u) : Consistent u := by
  unfold Term.onNewIntent at hintent
  have hzero : t.intents - 1 = 0 := by omega
  simp only [hzero] at hintent
  by_cases hconnected : t.connected = true
  · have hno : ¬ (!t.connected) = true := by simp [hconnected]
    rw [if_neg hno] at hintent
    obtain ⟨x, hlast, rfl⟩ := Option.map_eq_some_iff.mp hintent
    refine ⟨h.toTracked.addView hconnected hone hlast (hopened hconnected), ?_⟩
    intro _ htrue
    rw [show t.resumed = true from htrue] at hresumed
    cases hresumed
  · have hno : (!t.connected) = true := by simp [hconnected]
    rw [if_pos hno] at hintent
    cases hintent
    exact ⟨⟨h.nodup, h.views, Nat.zero_le 1, fun htrue => absurd htrue hconnected, h.absent,
      fun htrue => absurd htrue hconnected⟩, fun htrue => absurd htrue hconnected⟩

theorem settle_views {x : S} (hx : x ∈ (settle t).views) : x ∈ t.views := by
  unfold settle onUpdate removeStaleIfFewer at hx
  split_ifs at hx
  · exact hx
  · exact hx
  · exact List.mem_of_mem_filter hx
  · exact hx
  · exact hx

theorem settle_finished (h : (settle t).finished = false) : t.finished = false := by
  unfold settle onUpdate removeStaleIfFewer at h
  split_ifs at h <;> exact h

theorem Consistent.doCreateNewWindow (h : Consistent t) {created : S} (hnew : IsNew created t)
    (hquiet : t.intents = 0) : Consistent (t.doCreateNewWindow created) := by
  unfold Term.doCreateNewWindow
  split_ifs with hconnected
  · rw [change_add]
    obtain ⟨v, hv⟩ : ∃ v, v = { t with sessions := t.sessions.add created } := ⟨_, rfl⟩
    have hone : settle (opening created t) = { settle v with intents := 1 } := by
      rw [hv]
      exact settle_intents (t := { t with sessions := t.sessions.add created }) 1
    have hquiet' : (settle v).intents = 0 := by
      rw [settle_fields.2.2, hv]
      exact hquiet
    have hlast : (settle v).sessions.elements.getLast? = some created := by
      rw [settle_sessions, hv]
      exact List.getLast?_append
    have hnoview : created ∉ (settle v).views := fun hmem => by
      have hview := settle_views hmem
      rw [hv] at hview
      exact hnew.2 hview
    have hopen := (h.toTracked.opening hnew hquiet).settle.toTracked
    rw [hone] at hopen
    have hviews := hopen.addView (settle_fields.1.trans (by rw [hv]; exact hconnected)) rfl hlast
      ⟨created, List.mem_of_getLast? hlast, hnoview⟩
    simp only [← hquiet'] at hviews
    rw [← hv]
    refine ⟨hviews, fun _ hresumed _ hfinished => ?_⟩
    have hresumed' : t.resumed = true := by
      have hsettled : (settle v).resumed = true := hresumed
      rw [settle_fields.2.1, hv] at hsettled
      exact hsettled
    have hfinished' : t.finished = false := by
      have hsettled : v.finished = false := settle_finished hfinished
      rw [hv] at hsettled
      exact hsettled
    have hagree := h.agree hconnected hresumed' hquiet hfinished'
    have helements : v.sessions.elements = v.views ++ [created] := by
      rw [hv]
      exact congrArg (· ++ [created]) hagree.symm
    have hsame : settle v = v := by
      have hlength : v.sessions.elements.length = v.views.length + 1 := by
        rw [helements, List.length_append, List.length_singleton]
      unfold settle onUpdate removeStaleIfFewer
      split_ifs <;> first | rfl | omega
    change (settle v).views ++ [created] = (settle v).sessions.elements
    rw [hsame, helements]
  · exact h

theorem Consistent.populateViewFlipper (h : Consistent t) {created : S}
    (hconnected : t.connected = false) : Consistent (t.populateViewFlipper created) := by
  have hviews := h.absent hconnected
  obtain ⟨v, hv⟩ : ∃ v,
      v = { t with sessions := t.sessions.addCallback .term, connected := true } := ⟨_, rfl⟩
  have hregistered : .term ∈ v.sessions.callbacks := by
    rw [hv]
    exact List.mem_append_right _ List.mem_cons_self
  -- What the list is like behind the creation of a first session.
  obtain ⟨w, hw, hnodup, hnoviews, hcallback, hlimit, htrue⟩ : ∃ w,
      (if v.sessions.elements.length = 0 then v.change (v.sessions.add created) else v) = w ∧
      w.sessions.elements.Nodup ∧ w.views = [] ∧ .term ∈ w.sessions.callbacks ∧
      w.intents ≤ 1 ∧ w.connected = true := by
    have hvviews : v.views = [] := by
      rw [hv]
      exact hviews
    have hvlimit : v.intents ≤ 1 := by
      rw [hv]
      exact h.limit
    have hvtrue : v.connected = true := by
      rw [hv]
    split_ifs with hempty
    · refine ⟨_, rfl, ?_⟩
      rw [change_add, settle_sessions, settle_fields.2.2, settle_fields.1]
      refine ⟨?_, ?_, hregistered, hvlimit, hvtrue⟩
      · have hnone : v.sessions.elements = [] := List.length_eq_zero_iff.mp hempty
        change (v.sessions.elements ++ [created]).Nodup
        rw [hnone]
        exact List.nodup_singleton _
      · refine List.eq_nil_iff_forall_not_mem.mpr fun x hx => ?_
        have hmem : x ∈ v.views :=
          settle_views (t := { v with sessions := v.sessions.add created }) hx
        rw [hvviews] at hmem
        cases hmem
    · refine ⟨v, rfl, ?_, hvviews, hregistered, hvlimit, hvtrue⟩
      rw [hv]
      exact h.nodup
  have hresult : t.populateViewFlipper created =
      { w with views := w.views ++ w.sessions.elements } := by
    rw [← hw, hv]
    rfl
  have hagree : w.views ++ w.sessions.elements = w.sessions.elements := by
    rw [hnoviews, List.nil_append]
  rw [hresult, hagree]
  refine ⟨⟨hnodup, hnodup, hlimit, fun _ => ⟨[], ?_, Nat.zero_le _⟩, fun hfalse => ?_,
    fun _ _ => hcallback⟩, fun _ _ _ _ => rfl⟩
  · rw [List.append_nil]
    exact (List.filter_eq_self.mpr fun x hx => decide_eq_true hx).symm
  · rw [show w.connected = false from hfalse] at htrue
    cases htrue

/-! ## §5  Runs -/

/-- An event in order, that does not throw. -/
def Step (t u : Term S) : Prop := ∃ e : Event S, e.Orderly t ∧ e.perform t = some u

theorem Consistent.step (h : Consistent t) (hstep : Step t u) : Consistent u := by
  obtain ⟨e, horderly, hperform⟩ := hstep
  cases e with
  | populateViewFlipper created =>
      cases hperform
      exact h.populateViewFlipper horderly
  | onResume =>
      cases hperform
      exact h.onResume
  | onPause =>
      cases hperform
      exact h.onPause
  | doCreateNewWindow created =>
      cases hperform
      exact h.doCreateNewWindow horderly.1 horderly.2
  | doCloseWindow displayed =>
      exact h.doCloseWindow hperform horderly.1 horderly.2.1 horderly.2.2
  | onSessionFinish session =>
      cases hperform
      exact h.onSessionFinish session
  | closeFromList position => exact h.closeFromList hperform
  | openNewWindow created =>
      cases hperform
      exact h.openNewWindow horderly.1 horderly.2
  | onNewIntent => exact h.onNewIntent horderly.2.1 horderly.1 horderly.2.2 hperform

theorem consistent_create {sessions : SessionList S Callback} (h : sessions.elements.Nodup) :
    Consistent (Term.create sessions) := by
  refine ⟨⟨h, List.nodup_nil, Nat.zero_le 1, ?_, fun _ => rfl, ?_⟩, ?_⟩
  · exact fun hfalse => by cases hfalse
  · exact fun hfalse => by cases hfalse
  · exact fun hfalse => by cases hfalse

theorem consistent_of_run {sessions : SessionList S Callback} (h : sessions.elements.Nodup)
    (hrun : ReflTransGen Step (Term.create sessions) t) : Consistent t :=
  invariant_of_step (consistent_create h) (fun _ _ ha hstep => ha.step hstep) hrun

/-- Two sessions are there when the activity starts. -/
def sampleStart : Term Nat := Term.create ((SessionList.create.add 1).add 2)

def sampleShown : Term Nat := sampleStart.onResume.populateViewFlipper 0

/-- One exits while it is paused, and another application opens a third. -/
def sampleOpened : Term Nat := (sampleShown.onPause.onSessionFinish 1).openNewWindow 3

theorem sampleRun : ∃ t : Term Nat, ReflTransGen Step sampleStart t ∧ t.connected = true ∧
    t.resumed = true ∧ t.intents = 0 ∧ t.finished = false ∧ t.views[1]? = some 3 := by
  have hresume : Step sampleStart sampleStart.onResume := ⟨.onResume, rfl, rfl⟩
  have hshow : Step sampleStart.onResume sampleShown := ⟨.populateViewFlipper 0, rfl, rfl⟩
  have hpause : Step sampleShown sampleShown.onPause := ⟨.onPause, rfl, rfl⟩
  have hexit : Step sampleShown.onPause (sampleShown.onPause.onSessionFinish 1) :=
    ⟨.onSessionFinish 1, trivial, rfl⟩
  have hopen : Step (sampleShown.onPause.onSessionFinish 1) sampleOpened :=
    ⟨.openNewWindow 3, ⟨⟨by decide, by decide⟩, rfl⟩, rfl⟩
  obtain ⟨added, hadded⟩ : ∃ t, sampleOpened.onNewIntent = some t := ⟨_, rfl⟩
  have hintent : Step sampleOpened added :=
    ⟨.onNewIntent, ⟨rfl, rfl, fun _ => ⟨3, by decide, by decide⟩⟩, hadded⟩
  obtain rfl := Option.some.inj hadded
  refine ⟨_, .tail (.tail (.tail (.tail (.tail (.tail (.single hresume) hshow) hpause) hexit)
    hopen) hintent) ⟨.onResume, rfl, rfl⟩, ?_⟩
  exact ⟨rfl, rfl, rfl, rfl, rfl⟩

theorem settle_finishes (h : (settle t).finished = true) :
    t.finished = true ∨ t.sessions.elements = [] := by
  unfold settle onUpdate removeStaleIfFewer at h
  split_ifs at h with _ _ hempty
  · exact .inl h
  · exact .inr (List.length_eq_zero_iff.mp hempty)
  · exact .inl h
  · exact .inl h
  · exact .inl h

end Kbox.Windows
