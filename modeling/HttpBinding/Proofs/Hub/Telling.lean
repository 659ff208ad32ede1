import HttpBinding.Proofs.Hub.Recorders
import HttpBinding.Proofs.Session.Log

/-!
# HttpBinding.Proofs.Hub.Telling

While a hub tells the observers of an open session what was done, it plays on the session's stage.

On a stage anybody may act at any time. A hub does less: it makes the calls in order, and whoever
is called can only add and remove observers, as the session is open and busy. `Enacts` follows the
hub through this, call by call, and also says that what recorders write down is what they are called
with. So whatever holds of every run on a stage holds of the sessions of a hub, and can be read in
its journal.
-/

namespace HttpBinding

/-! ### What recorders write down -/

/-- What a recorder heard of, and what it saw of the session then. -/
structure Telling where
  occasion : Occasion
  label : String
  rid : Option Nat
  seen : Shown
deriving DecidableEq, Repr

/-- What a recorder wrote down, if the note comes from one that was told something. -/
def Note.telling? : Note → Option Telling
  | .heard occasion label rid held hasEnded _ => some ⟨occasion, label, rid, ⟨held, hasEnded⟩⟩
  | _ => none

/-- What the recorder writes down that is called while a session shows this, if it is one. -/
def Notice.telling? (seen : Shown) : Notice Observer → Option Telling
  | .event e (.recorder label _) => some ⟨e.occasion, label, some e.rid, seen⟩
  | .ended (.recorder label _) => some ⟨.ended, label, none, seen⟩
  | _ => none

/-- What the recorder wrote down that was called, if it was one. -/
def Hearing.telling? (e : Hearing Observer) : Option Telling :=
  e.notice.telling? e.session.shown

namespace Hub

variable {α : Type} {k : Nat} {h h' h'' start : Hub} {s : Session Observer}
variable {t : Stage Observer} {due : List (Notice Observer)}

/-- All that recorders wrote down when they were told something, in order. -/
def tellings (h : Hub) : List Telling := h.journal.filterMap fun e => e.note.telling?

/-! ### Steps that leave a session alone -/

/-- Nothing happens to the session `k`, and nobody is told anything. -/
structure Quiet (k : Nat) (h h' : Hub) : Prop where
  session : h'.session? k = h.session? k
  tellings : h'.tellings = h.tellings

theorem Quiet.refl (k : Nat) (h : Hub) : Quiet k h h := ⟨rfl, rfl⟩

theorem Quiet.trans (hq : Quiet k h h') (hq' : Quiet k h' h'') : Quiet k h h'' :=
  ⟨hq'.session.trans hq.session, hq'.tellings.trans hq.tellings⟩

theorem quiet_arm (h : Hub) (timer j : Nat) : Quiet k h (h.arm timer j) := by
  unfold arm
  split
  · exact .refl k h
  · dsimp only
    split <;> exact ⟨rfl, rfl⟩

theorem quiet_cancel (h : Hub) (timer j : Nat) : Quiet k h (h.cancel timer j) := by
  unfold cancel
  split
  · exact .refl k h
  · exact ⟨rfl, rfl⟩

theorem quiet_byTimer {f : Hub → Nat → Nat → Hub} (hf : ∀ h timer j, Quiet k h (f h timer j))
    (h : Hub) (timer session : String) : Quiet k h (h.byTimer timer session f).1 := by
  unfold byTimer
  split
  · exact hf ..
  · exact .refl k h

/-- A note is quiet if it does not come from a recorder that was told something. -/
theorem quiet_write (h : Hub) (id : StreamId) {note : Note} (hnote : note.telling? = none) :
    Quiet k h (h.write id note) :=
  ⟨rfl, by simp [tellings, write, hnote]⟩

/-- A busy session does not answer. -/
theorem quiet_ifEnded (hs : h.session? k = some s) (hopen : s.closed = false)
    (op : Session Observer → Report Observer α) (answer : α → Answer) :
    Quiet k h (h.ifEnded k op answer).1 := by
  unfold ifEnded
  rw [hs]
  simp only [hopen]
  exact .refl k h

theorem foldl_wake (h : Hub) (xs : List Exchange) :
    (xs.foldl (fun h x => h.wake (Job.awaitsAnswer x.key)) h).sessions = h.sessions ∧
      (xs.foldl (fun h x => h.wake (Job.awaitsAnswer x.key)) h).journal = h.journal := by
  induction xs generalizing h with
  | nil => exact ⟨rfl, rfl⟩
  | cons x xs ih => exact ih (h.wake (Job.awaitsAnswer x.key))

/-- Where nothing is handed on, a report takes effect without a note. -/
theorem session?_absorb (hs : h.session? k = some s) {r : Report Observer α}
    (hnone : r.failedOver = []) :
    (h.absorb k r).session? k = some r.session ∧ (h.absorb k r).tellings = h.tellings := by
  obtain ⟨g, hg⟩ : ∃ g : Hub, g =
      { h.setSession k r.session with loose := h.loose ++ r.released } := ⟨_, rfl⟩
  obtain ⟨hsessions, hjournal⟩ := foldl_wake g r.released
  have hsame : h.absorb k r =
      r.released.foldl (fun h x => h.wake (Job.awaitsAnswer x.key)) g := by
    simp only [absorb, hnone, List.foldl_nil, ← hg]
    split <;> rfl
  have hgs : g.session? k = some r.session := by
    rw [hg]
    exact session?_setSession_self hs r.session
  rw [hsame]
  refine ⟨?_, ?_⟩
  · rw [session?, hsessions]
    exact hgs
  · rw [tellings, hjournal, hg]
    rfl

/-! ### A hub on the stage of a session -/

/-- The hub `h`, which began as `start`, has its open session `k` as a run without operations has
it on the stage `t` while the calls `due` are left, and its recorders have written down what they
were called with. -/
def Enacts (k : Nat) (start : Hub) (t : Stage Observer) (due : List (Notice Observer))
    (h : Hub) : Prop :=
  ∃ during, (∀ b ∈ during, b.isOperation = false) ∧ (t.play during).due = due ∧
    (t.play during).session.closed = false ∧ h.session? k = some (t.play during).session ∧
    h.tellings = start.tellings ++ (t.play during).heard.filterMap Hearing.telling?

theorem Enacts.quiet (he : Enacts k start t due h) (hq : Quiet k h h') :
    Enacts k start t due h' := by
  obtain ⟨during, hnone, hdue, hopen, hs, htold⟩ := he
  exact ⟨during, hnone, hdue, hopen, hq.session.trans hs, hq.tellings.trans htold⟩

/-- The next call is not one on the sink. -/
def IsHearing (due : List (Notice Observer)) : Prop :=
  ∀ v : Stage Observer, v.due = due → v.isHandingOn = false

theorem isHearing_events (events : List (Event × Observer)) :
    IsHearing (events.map fun n => .event n.1 n.2) := by
  intro v hv
  cases events <;> simp [Stage.isHandingOn, hv]

/-- An observer that is added or removed in the hub is so on the stage. -/
theorem Enacts.deed (he : Enacts k start t due h) (hdue : IsHearing due)
    {d : Session.Deed Observer} (hd : (∃ o, d = .observe o) ∨ ∃ ticket, d = .unobserve ticket)
    (hs : ∀ v : Stage Observer, h.session? k = some v.session →
      h'.session? k = some (v.perform d).session)
    (htold : h'.tellings = h.tellings) : Enacts k start t due h' := by
  obtain ⟨during, hnone, hvdue, hopen, hvs, hvtold⟩ := he
  obtain ⟨v, hv⟩ : ∃ v, v = t.play during := ⟨_, rfl⟩
  rw [← hv] at hvdue hopen hvs hvtold
  have hfree : v.defers d = false := by
    rcases hd with ⟨o, rfl⟩ | ⟨ticket, rfl⟩ <;> exact hdue v hvdue
  have hnext : t.play (during ++ [.deed d]) = v.perform d := by
    rw [Stage.play_append, ← hv]
    show (if v.defers d then v else v.perform d) = v.perform d
    rw [hfree]
    rfl
  have hkept : (v.perform d).due = v.due ∧
      (v.perform d).session.closed = v.session.closed := by
    rcases hd with ⟨o, rfl⟩ | ⟨ticket, rfl⟩ <;> exact ⟨rfl, rfl⟩
  refine ⟨during ++ [.deed d], fun b hb => ?_, ?_, ?_, ?_, ?_⟩
  · rcases List.mem_append.mp hb with hb | hb
    · exact hnone b hb
    · obtain rfl := List.mem_singleton.mp hb
      rcases hd with ⟨o, rfl⟩ | ⟨ticket, rfl⟩ <;> rfl
  · rw [hnext, hkept.1, hvdue]
  · rw [hnext, hkept.2, hopen]
  · rw [hnext]
    exact hs v hvs
  · rw [hnext, Stage.heard_perform, htold, hvtold]

/-- The next call is made, and who is called writes down what it heard. -/
theorem Enacts.call {notice : Notice Observer} (he : Enacts k start t (notice :: due) h)
    (hs : h'.session? k = h.session? k)
    (htold : ∀ v : Stage Observer, h.session? k = some v.session →
      h'.tellings = h.tellings ++ (notice.telling? v.session.shown).toList) :
    Enacts k start t due h' := by
  obtain ⟨during, hnone, hvdue, hopen, hvs, hvtold⟩ := he
  obtain ⟨v, hv⟩ : ∃ v, v = t.play during := ⟨_, rfl⟩
  rw [← hv] at hvdue hopen hvs hvtold
  have hnext : t.play (during ++ [.call]) = v.call := by
    rw [Stage.play_append, ← hv]
    rfl
  have hcall : v.call = { v with due, heard := v.heard ++ [⟨notice, v.session⟩] } := by
    unfold Stage.call
    rw [hvdue]
  refine ⟨during ++ [.call], fun b hb => ?_, ?_, ?_, ?_, ?_⟩
  · rcases List.mem_append.mp hb with hb | hb
    · exact hnone b hb
    · obtain rfl := List.mem_singleton.mp hb
      rfl
  · rw [hnext, hcall]
  · rw [hnext, hcall]
    exact hopen
  · rw [hnext, hcall]
    exact hs.trans hvs
  · rw [hnext, hcall, htold v hvs, hvtold]
    cases htelling : notice.telling? v.session.shown <;> simp [Hearing.telling?, htelling]

/-! ### What recorders do -/

/-- Whatever a recorder does, it does on the stage. -/
theorem Enacts.act (he : Enacts k start t due h) (hdue : IsHearing due) (a : Action) :
    Enacts k start t due (h.act k a).1 := by
  obtain ⟨s, hs, hopen⟩ : ∃ s, h.session? k = some s ∧ s.closed = false := by
    obtain ⟨during, -, -, hopen, hs, -⟩ := he
    exact ⟨_, hs, hopen⟩
  cases a with
  | remove label =>
      show Enacts k start t due (h.removeRecorder k label).1
      unfold removeRecorder
      split
      · rename_i ticket u hlabel hu
        refine he.deed hdue (Or.inr ⟨ticket, rfl⟩) (fun v hv => ?_) rfl
        rw [hu] at hv
        obtain rfl := Option.some.inj hv
        exact session?_setSession_self hu _
      · exact he
  | add label =>
      show Enacts k start t due (h.addRecorder k label (.recorder label []))
      unfold addRecorder
      rw [hs]
      refine he.deed hdue (Or.inl ⟨.recorder label [], rfl⟩) (fun v hv => ?_) rfl
      rw [hs] at hv
      obtain rfl := Option.some.inj hv
      exact session?_setSession_self hs _
  | arm timer session => exact he.quiet (quiet_byTimer quiet_arm ..)
  | cancel timer session => exact he.quiet (quiet_byTimer quiet_cancel ..)
  | deliver stanza => exact he.quiet (quiet_ifEnded hs hopen _ _)
  | release => exact he.quiet (quiet_ifEnded hs hopen _ _)
  | close => exact he.quiet (quiet_ifEnded hs hopen _ _)
  | enter rid poll =>
      have hnew : Quiet k h
          ((h.newExchange rid true).1.takeLoose (h.newExchange rid true).2.key) := ⟨rfl, rfl⟩
      exact he.quiet (hnew.trans (quiet_ifEnded (hnew.session.trans hs) hopen _ _))

theorem Enacts.actAll (he : Enacts k start t due h) (hdue : IsHearing due) (occasion : Occasion)
    (label : String) (actions : List (Occasion × Action)) :
    Enacts k start t due (h.actAll k occasion label actions) := by
  refine List.foldlRecOn actions _ he fun g hg a _ => ?_
  have hact := hg.act hdue a.2
  split
  · split
    · rename_i heq hs
      rw [heq] at hact
      exact hact.quiet (quiet_write _ _ rfl)
    · rename_i heq hs
      rw [heq] at hact
      exact hact
  · exact hg

/-- To tell an observer of an event is to make the next call. -/
theorem Enacts.hear {e : Event} {o : Observer} (he : Enacts k start t (.event e o :: due) h)
    (hdue : IsHearing due) : Enacts k start t due (Hub.hear k h (e, o)) := by
  cases o with
  | silent => exact he.call rfl fun _ _ => (List.append_nil _).symm
  | steward =>
      have hcalled : Enacts k start t due h := he.call rfl fun _ _ => (List.append_nil _).symm
      cases e with
      | opened rid => exact hcalled.quiet (quiet_cancel ..)
      | closed rid =>
          refine hcalled.quiet ?_
          simp only [Hub.hear]
          split
          · exact quiet_arm ..
          · exact .refl k h
  | recorder label actions =>
      obtain ⟨u, hu⟩ : ∃ u, h.session? k = some u := by
        obtain ⟨during, -, -, -, hs, -⟩ := he
        exact ⟨_, hs⟩
      have hheard : Enacts k start t due (h.writeHeard k e.occasion label (some e.rid)) := by
        simp only [writeHeard, hu]
        refine he.call rfl fun v hv => ?_
        rw [hu] at hv
        obtain rfl := Option.some.inj hv
        simp [tellings, write, Note.telling?, Notice.telling?]
      exact hheard.actAll hdue ..

/-- All observers are told, one after the other. -/
theorem Enacts.foldl_hear {notices : List (Event × Observer)}
    (he : Enacts k start t (notices.map fun n => .event n.1 n.2) h) :
    Enacts k start t [] (notices.foldl (Hub.hear k) h) := by
  induction notices generalizing h with
  | nil => exact he
  | cons n notices ih => exact ih (he.hear (isHearing_events notices))

/-- What becomes of an open session after an operation, until the last observer has heard, is what
becomes of it in a run on its stage where all calls are made and nothing else happens than that
observers come and go. What recorders write down meanwhile are the calls of that run. -/
theorem conclude_enacts (hs : h.session? k = some s) (hopen : s.closed = false)
    {r : Report Observer α} (hfits : r.Fits s) (hnone : r.failedOver = []) :
    Enacts k h (({ session := s } : Stage Observer).absorb r []) [] (h.conclude k r) := by
  obtain ⟨hsession, htold⟩ := session?_absorb hs hnone
  have hbegun : Enacts k h (({ session := s } : Stage Observer).absorb r [])
      (r.notices.map fun n => .event n.1 n.2) (h.absorb k r) := by
    refine ⟨[], by simp, ?_, hfits.closed.trans hopen, hsession, ?_⟩
    · simp [Stage.play, Stage.absorb, Report.calls, hnone]
    · simpa [Stage.play, Stage.absorb] using htold
  exact hbegun.foldl_hear

/-- **What recorders write down is what was done.** When a hub does something to an open session,
the recorders that are there hear of its events in turn, whoever is added or removed meanwhile, and
each of them writes down the number held at the end. -/
theorem tellings_conclude (hs : h.session? k = some s) (hopen : s.closed = false)
    {r : Report Observer α} (hfits : r.Fits s) (hnone : r.failedOver = []) :
    (h.conclude k r).tellings = h.tellings ++
      (r.events.flatMap fun e => s.observers.map fun p => .event e p.2).filterMap
        (Notice.telling? r.session.shown) := by
  obtain ⟨during, hbeats, hdue, -, -, htold⟩ := conclude_enacts hs hopen hfits hnone
  obtain ⟨t, ht⟩ : ∃ t : Stage Observer, t = ({ session := s } : Stage Observer).absorb r [] :=
    ⟨_, rfl⟩
  rw [← ht] at hdue htold
  obtain ⟨new, hheard, hnotices, hnew⟩ := (t.frozen_play hbeats).heard
  have hcalls : new.map Hearing.notice =
      r.events.flatMap fun e => s.observers.map fun p => .event e p.2 := by
    rw [← hfits.observers, ← Stage.calls_of_open hnone]
    rw [hdue, List.append_nil] at hnotices
    rw [hnotices, ht]
    exact List.append_nil _
  rw [htold, hheard, ← hcalls, List.filterMap_map, ht]
  refine congrArg _ (List.filterMap_congr fun e he => ?_)
  simp only [Hearing.telling?, Function.comp_apply]
  rw [hnew e he, ht]
  rfl

end Hub

end HttpBinding
