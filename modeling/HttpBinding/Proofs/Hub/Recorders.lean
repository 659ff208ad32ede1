import HttpBinding.Proofs.Hub.Course

/-!
# HttpBinding.Proofs.Hub.Recorders

Recorders cannot disturb the registry or the countdowns.

A recorder may act on its session and on countdowns while it hears of something. In a tidy hub all
of that is beside the sessions: recorders come and go with tickets that the steward never has,
countdowns are out of reach because nothing has a name, and only an ended session answers, which
changes nothing about it.
-/

namespace HttpBinding.Hub

/-- Steps that are beside the sessions as long as the hub is tidy may follow one another. -/
theorem Beside.foldl_of_tidy {α : Type} {f : Hub → α → Hub}
    (hf : ∀ h a, h.Tidy → Beside h (f h a)) (as : List α) {h : Hub} (ht : h.Tidy) :
    Beside h (as.foldl f h) := by
  induction as generalizing h with
  | nil => exact .refl h
  | cons a as ih =>
      have hstep := hf h a ht
      exact hstep.trans (ih (hstep.tidy ht))

/-! ### Reports put into effect -/

/-- Apart from the session itself, a report is put into effect beside the sessions. -/
theorem beside_absorb {α : Type} (h : Hub) (k : Nat) (r : Report Observer α) :
    Beside (h.setSession k r.session) (h.absorb k r) := by
  have hloose : Beside (h.setSession k r.session)
      { h.setSession k r.session with loose := h.loose ++ r.released } :=
    .of_eq rfl rfl rfl rfl rfl rfl rfl
  have hwoken := hloose.trans
    (Beside.foldl (f := fun h (x : Exchange) => h.wake (Job.awaitsAnswer x.key))
      (fun h x => beside_wake h _) r.released _)
  unfold absorb
  split
  · exact hwoken.trans (Beside.foldl (fun h stanza => beside_write h _ _) r.failedOver _)
  · exact hwoken

/-- A report that leaves the session as it was is beside the sessions. -/
theorem beside_absorb_of_eq {α : Type} {h : Hub} {k : Nat} {s : Session Observer}
    (hs : h.session? k = some s) {r : Report Observer α} (hr : r.session = s) :
    Beside h (h.absorb k r) := by
  refine Beside.trans ?_ (beside_absorb h k r)
  rw [hr]
  exact beside_setSession hs rfl id id

/-! ### Observers that come and go -/

theorem Beside.of_recorders {h : Hub} {recorders : List (String × Nat)}
    (hr : h.Tidy → ∀ e ∈ recorders, 0 < e.2) :
    Beside h { h with names := { h.names with recorders } } :=
  ⟨⟨rfl, fun ht => ⟨ht.oneTable, ht.unnamed, hr ht, ht.sound, ht.staffed⟩, id,
    List.Sublist.refl _, rfl, ⟨[], (List.append_nil _).symm⟩, fun _ hjob => Or.inl hjob,
    fun _ g hg => ⟨g, hg, rfl, rfl⟩, fun _ _ hg _ => hg⟩,
    fun _ => ⟨rfl, fun _ => Iff.rfl, fun _ _ => Iff.rfl⟩⟩

theorem beside_observe {h : Hub} {k : Nat} {s : Session Observer} (hs : h.session? k = some s)
    {o : Observer} (ho : o ≠ .steward) : Beside h (h.setSession k (s.observe o).2) :=
  beside_setSession hs (s.gist_observe ho) (fun hsound => hsound.of_eq rfl rfl rfl rfl rfl)
    fun hstaffed => hstaffed.observe ho

theorem beside_addRecorder (h : Hub) (k : Nat) (label : String) {o : Observer}
    (ho : o ≠ .steward) : Beside h (h.addRecorder k label o) := by
  unfold addRecorder
  split
  · exact .refl h
  · rename_i s hs
    have htickets : h.Tidy → ∀ e ∈ (label, s.nextTicket) :: h.names.recorders, 0 < e.2 := by
      intro ht e he
      rcases List.mem_cons.mp he with rfl | he
      · exact (ht.staffed s (mem_sessions hs)).begun
      · exact ht.tickets e he
    obtain ⟨named, hnamed⟩ : ∃ named : Hub, named = { h with names :=
      { h.names with recorders := (label, s.nextTicket) :: h.names.recorders } } := ⟨_, rfl⟩
    have hs' : named.session? k = some s := by
      rw [hnamed]
      exact hs
    have hobserved := beside_observe hs' ho
    rw [hnamed] at hobserved
    exact (Beside.of_recorders htickets).trans hobserved

theorem beside_removeRecorder {h : Hub} (ht : h.Tidy) (k : Nat) (label : String) :
    Beside h (h.removeRecorder k label).1 := by
  unfold removeRecorder
  split
  · rename_i ticket s hlabel hs
    have hmem : (label, ticket) ∈ h.names.recorders := by
      obtain ⟨l₁, l₂, heq, -⟩ := List.lookup_eq_some_iff.mp hlabel
      simp [heq]
    have hstaffed := ht.staffed s (mem_sessions hs)
    exact beside_setSession hs (hstaffed.gist_unobserve (ht.tickets _ hmem))
      (fun hsound => hsound.of_eq rfl rfl rfl rfl rfl) fun hst => hst.unobserve ticket
  · exact .refl h

/-! ### What recorders do -/

/-- Where no session has a name, a countdown cannot be started or stopped by name. -/
theorem byTimer_of_unnamed {h : Hub} (hu : h.names.sessions = []) (timer session : String)
    (f : Hub → Nat → Nat → Hub) : h.byTimer timer session f = (h, .nothing) := by
  unfold byTimer
  split
  · rename_i hlookup
    simp [hu] at hlookup
  · rfl

/-- Only an ended session answers, and an operation that leaves it as it was is beside the
sessions. -/
theorem beside_ifEnded {α : Type} (h : Hub) (k : Nat)
    {op : Session Observer → Report Observer α} (hop : ∀ s, s.closed = true → (op s).session = s)
    (answer : α → Answer) : Beside h (h.ifEnded k op answer).1 := by
  unfold ifEnded
  split
  · exact .refl h
  · rename_i s hs
    split
    · rename_i hc
      exact beside_absorb_of_eq hs (hop s hc)
    · exact .refl h

theorem session_accept_of_closed {s : Session Observer} (hc : s.closed = true) (x : Exchange)
    (poll : Bool) (now : Nat) : (s.accept x poll now).session = s := by
  rw [Session.accept_of_closed hc]

theorem session_deliver_of_closed {s : Session Observer} (hc : s.closed = true)
    (stanza : Stanza) : (s.deliver stanza).session = s := by
  simp [Session.deliver, hc]

theorem session_release_of_closed {s : Session Observer} (hc : s.closed = true) :
    s.release.session = s := by
  simp [Session.release, hc]

/-- Whatever a recorder does, it does beside the sessions. -/
theorem beside_act {h : Hub} (ht : h.Tidy) (k : Nat) (a : Action) : Beside h (h.act k a).1 := by
  cases a with
  | remove label => exact beside_removeRecorder ht k label
  | add label => exact beside_addRecorder h k label (by simp)
  | arm timer session =>
      simp only [act, byTimer_of_unnamed ht.unnamed]
      exact .refl h
  | cancel timer session =>
      simp only [act, byTimer_of_unnamed ht.unnamed]
      exact .refl h
  | deliver stanza =>
      exact beside_ifEnded h k (fun s hc => session_deliver_of_closed hc stanza) _
  | release => exact beside_ifEnded h k (fun s hc => session_release_of_closed hc) _
  | close => exact beside_ifEnded h k (fun s hc => (s.close_of_closed hc true).1) _
  | enter rid poll =>
      have hnew := (beside_newExchange h rid true).trans
        (beside_takeLoose _ (h.newExchange rid true).2.key)
      exact hnew.trans
        (beside_ifEnded _ k (fun s hc => session_accept_of_closed hc _ poll _) _)

theorem beside_actAll {h : Hub} (ht : h.Tidy) (k : Nat) (occasion : Occasion) (label : String)
    (actions : List (Occasion × Action)) : Beside h (h.actAll k occasion label actions) := by
  refine Beside.foldl_of_tidy (fun h a ht => ?_) actions ht
  have hact := beside_act ht k a.2
  split
  · split
    · rename_i heq hs
      rw [heq] at hact
      exact hact.trans (beside_write ..)
    · rename_i heq hs
      rw [heq] at hact
      exact hact
  · exact .refl h

/-- What a recorder does when it has heard of something is beside the sessions. -/
theorem beside_recorder {h : Hub} (ht : h.Tidy) (k : Nat) (occasion : Occasion) (label : String)
    (rid : Option Nat) (actions : List (Occasion × Action)) :
    Beside h ((h.writeHeard k occasion label rid).actAll k occasion label actions) := by
  have hheard := beside_writeHeard h k occasion label rid
  exact hheard.trans (beside_actAll (hheard.tidy ht) ..)

/-- Only the steward can do anything about the registry or the countdowns when an exchange is
opened or closed. -/
theorem beside_hear {h : Hub} (ht : h.Tidy) (k : Nat) (e : Event) {o : Observer}
    (ho : o ≠ .steward) : Beside h (hear k h (e, o)) := by
  cases o with
  | steward => exact absurd rfl ho
  | silent => exact .refl h
  | recorder label actions => exact beside_recorder ht ..

/-- Only the steward can do anything about the registry or the countdowns when a session has
ended. -/
theorem beside_hearEnd {h : Hub} (ht : h.Tidy) (close : Hub → Nat → Bool → Hub) (k : Nat)
    {o : Observer} (ho : o ≠ .steward) : Beside h (hearEnd close k h o) := by
  cases o with
  | steward => exact absurd rfl ho
  | silent => exact .refl h
  | recorder label actions => exact beside_recorder ht ..

end HttpBinding.Hub
