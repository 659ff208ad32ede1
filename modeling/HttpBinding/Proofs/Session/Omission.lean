import HttpBinding.Proofs.Session.Security

/-!
# HttpBinding.Proofs.Session.Omission

Requests that come over an open channel can be left out of a run, and nobody else would notice.

The two runs that are compared have to speak of the same exchanges. An exchange is known by its
number, so the beats of a run are given with the number that an exchange gets which they bring in
(`playAs`), and leaving a beat out does not change the numbers of the others. An ordinary run is of
this kind (`playAs_numbered`).

What is compared is everything that there is to a run: its `history` has for each beat the whole
report of what was done, and a `View` of the stage afterwards. The exchanges that were let go are
compared at the end (`Alike`): the longer run has let go of some more, to which nothing was done.
-/

namespace HttpBinding

/-- What is answered to whoever does a deed. -/
inductive Session.Reply (ο : Type) where
  | admission (result : Except Fault Unit)
  | delivery (result : Delivery)
  /-- So many exchanges were let go. -/
  | released (count : Nat)
  /-- These observers are to hear of the end. -/
  | ended (observers : List ο)
  | departed
  /-- An observer was added, and has this ticket. -/
  | ticket (ticket : Nat)
  /-- There was an observer with the ticket, or there was none. -/
  | unobserved (found : Bool)

/-- The report with another answer. -/
def Report.map {ο α β : Type} (f : α → β) (r : Report ο α) : Report ο β :=
  { answer := f r.answer
    session := r.session
    events := r.events
    released := r.released
    failedOver := r.failedOver }

/-- The beat brings in a request over an open channel, and not to poll. -/
def Beat.isOpenRequest {ο : Type} : Beat ο → Bool
  | .deed (.enter _ false _ false _) => true
  | _ => false

namespace Stage

variable {ο : Type}

/-! ### Runs with numbers -/

/-- One thing happens; an exchange that is brought in by it gets the number. -/
def stepAs (t : Stage ο) (e : Nat × Beat ο) : Stage ο := { t with entered := e.1 }.step e.2

/-- Things happen one after the other, each with its number. -/
def playAs (t : Stage ο) (run : List (Nat × Beat ο)) : Stage ο := run.foldl stepAs t

/-- The numbers that the exchanges of a run get by themselves. -/
def numbered (t : Stage ο) : List (Beat ο) → List (Nat × Beat ο)
  | [] => []
  | b :: beats => (t.entered, b) :: (t.step b).numbered beats

/-- An ordinary run is a run with numbers. -/
theorem playAs_numbered (t : Stage ο) (beats : List (Beat ο)) :
    t.playAs (t.numbered beats) = t.play beats := by
  induction beats generalizing t with
  | nil => rfl
  | cons b beats ih => exact ih (t.step b)

theorem map_snd_numbered (t : Stage ο) (beats : List (Beat ο)) :
    (t.numbered beats).map Prod.snd = beats := by
  induction beats generalizing t with
  | nil => rfl
  | cons b beats ih => simp [numbered, ih]

/-! ### The history of a run -/

/-- The report of a deed. -/
def reportOf (t : Stage ο) : Session.Deed ο → Report ο (Session.Reply ο)
  | .enter rid secure past poll now =>
    (t.session.accept ((Exchange.fresh t.entered rid secure).after past) poll now).map .admission
  | .deliver stanza => (t.session.deliver stanza).map .delivery
  | .release => t.session.release.map .released
  | .close shutdown => (t.session.close shutdown).map .ended
  | .depart key => { answer := .departed, session := t.session.depart key }
  | .observe o => { answer := .ticket (t.session.observe o).1, session := (t.session.observe o).2 }
  | .unobserve ticket =>
    { answer := .unobserved (t.session.unobserve ticket).1
      session := (t.session.unobserve ticket).2 }

/-- What is to be seen on a stage: the session, who was admitted, and the calls. -/
structure View (ο : Type) where
  session : Session ο
  admitted : List Nat
  due : List (Notice ο)
  heard : List (Hearing ο)

def view (t : Stage ο) : View ο := ⟨t.session, t.admitted, t.due, t.heard⟩

/-- A beat with its number, and what came of it. -/
structure Moment (ο : Type) where
  number : Nat
  beat : Beat ο
  /-- What was done, if the beat is a deed and could be done. -/
  report : Option (Report ο (Session.Reply ο))
  /-- What is to be seen afterwards. -/
  view : View ο

/-- What a beat does, if it is a deed and can be done. -/
def report? (t : Stage ο) : Beat ο → Option (Report ο (Session.Reply ο))
  | .call => none
  | .deed d => if t.defers d then none else some (t.reportOf d)

def moment (t : Stage ο) (e : Nat × Beat ο) : Moment ο where
  number := e.1
  beat := e.2
  report := { t with entered := e.1 }.report? e.2
  view := (t.stepAs e).view

/-- Everything that comes of a run, beat by beat. -/
def history (t : Stage ο) : List (Nat × Beat ο) → List (Moment ο)
  | [] => []
  | e :: run => t.moment e :: (t.stepAs e).history run

/-! ### What was let go is never looked at -/

/-- A beat adds to the exchanges that were let go, or one of their requesters leaves; what else it
does has nothing to do with them. -/
theorem step_with_released (t : Stage ο) (b : Beat ο) :
    ∃ (g : Exchange → Exchange) (more : List Exchange), (∀ y, g y = y ∨ g y = y.depart) ∧
      ∀ released, { t with released }.step b =
        { t.step b with released := released.map g ++ more } := by
  have hstill : ∀ y : Exchange, id y = y ∨ id y = y.depart := fun y => Or.inl rfl
  cases b with
  | call =>
      refine ⟨id, [], hstill, fun released => ?_⟩
      rw [List.map_id, List.append_nil]
      obtain ⟨session, entered, admitted, before, due, heard⟩ := t
      cases due <;> rfl
  | deed d =>
      by_cases hd : t.defers d = true
      · refine ⟨id, [], hstill, fun released => ?_⟩
        have hd' : { t with released }.defers d = true := hd
        simp only [step, if_pos hd, if_pos hd', List.map_id, List.append_nil]
      · have hdeed : ∀ released, { t with released }.step (.deed d) =
            { t with released }.perform d := fun released => if_neg hd
        have hdone : t.step (.deed d) = t.perform d := if_neg hd
        obtain ⟨more, hmore⟩ : ∃ more, more = (t.reportOf d).released := ⟨_, rfl⟩
        rw [hdone]
        simp only [hdeed]
        cases d with
        | enter | deliver | release | close =>
            refine ⟨id, more, hstill, fun released => ?_⟩
            rw [List.map_id, hmore]
            rfl
        | observe | unobserve =>
            refine ⟨id, [], hstill, fun released => ?_⟩
            rw [List.map_id, List.append_nil]
            rfl
        | depart key =>
            refine ⟨fun x => if x.key = key then x.depart else x, [], fun y => ?_,
              fun released => ?_⟩
            · by_cases hy : y.key = key
              · exact Or.inr (if_pos hy)
              · exact Or.inl (if_neg hy)
            · rw [List.append_nil]
              rfl

/-- Two stages on which the same is to be seen, where more was let go on the first: all of that was
turned away, and came with one of the beats that were `omitted` on the second. -/
structure Alike (omitted : List (Beat ο)) (t u : Stage ο) : Prop where
  view : u.view = t.view
  released : ∃ turned, t.released.Perm (u.released ++ turned) ∧
    ∀ y ∈ turned, TurnedAway omitted y

variable {omitted : List (Beat ο)} {t u : Stage ο}

theorem Alike.refl (omitted : List (Beat ο)) (t : Stage ο) : t.Alike omitted t :=
  ⟨rfl, [], by rw [List.append_nil], by simp⟩

/-- Stages on which the same is to be seen differ in two things at most. -/
theorem Alike.eq (h : t.Alike omitted u) :
    u = { t with entered := u.entered, released := u.released } := by
  have hview := h.view
  simp only [Stage.view, View.mk.injEq] at hview
  obtain ⟨hsession, hadmitted, hdue, hheard⟩ := hview
  cases u
  simp_all

/-- The same comes of a beat on both, and they stay alike. -/
theorem Alike.stepAs (h : t.Alike omitted u) (e : Nat × Beat ο) :
    u.moment e = t.moment e ∧ (t.stepAs e).Alike omitted (u.stepAs e) := by
  obtain ⟨g, more, hg, hstep⟩ := step_with_released { t with entered := e.1 } e.2
  have ht : t.stepAs e = { t.stepAs e with released := t.released.map g ++ more } :=
    hstep t.released
  have hu : u.stepAs e = { t.stepAs e with released := u.released.map g ++ more } := by
    rw [h.eq]
    exact hstep u.released
  have hview : (u.stepAs e).view = (t.stepAs e).view := by
    rw [hu]
    rfl
  refine ⟨?_, hview, ?_⟩
  · have hreport : { u with entered := e.1 }.report? e.2 =
        { t with entered := e.1 }.report? e.2 := by
      rw [h.eq]
      rfl
    rw [moment, moment, hview, hreport]
  · obtain ⟨turned, hperm, hturned⟩ := h.released
    refine ⟨turned.map g, ?_, fun y hy => ?_⟩
    · have hmapped := (hperm.map g).append_right more
      rw [List.map_append, List.append_assoc] at hmapped
      rw [ht, hu]
      refine hmapped.trans ?_
      rw [List.append_assoc]
      exact List.perm_append_comm.append_left _
    · obtain ⟨x, hx, rfl⟩ := List.mem_map.mp hy
      rcases hg x with hsame | hleft
      · rw [hsame]
        exact hturned x hx
      · rw [hleft]
        exact (hturned x hx).depart

/-- A request that comes over an open channel leaves no trace but that it is let go. -/
theorem step_of_isOpenRequest (hsecure : t.session.terms.secure = true) {b : Beat ο}
    (hb : b.isOpenRequest = true) :
    (t.step b).view = t.view ∧ ∃ turned, (t.step b).released = t.released ++ turned ∧
      ∀ y ∈ turned, TurnedAway [b] y := by
  cases b with
  | call => cases hb
  | deed d =>
      cases d with
      | deliver | release | close | depart | observe | unobserve => cases hb
      | enter rid secure past poll now =>
          cases secure <;> cases poll <;> simp only [Beat.isOpenRequest, reduceCtorEq] at hb
          by_cases hd : t.defers (.enter rid false past false now) = true
          · have hstep : t.step (.deed (.enter rid false past false now)) = t := if_pos hd
            rw [hstep]
            exact ⟨rfl, [], (List.append_nil _).symm, by simp⟩
          · have hchannel : ((Exchange.fresh t.entered rid false).after past).secure = false :=
              Exchange.secure_after ..
            obtain ⟨fault, lastPoll, heq, hkept⟩ :=
              Session.accept_insecure_eq hsecure hchannel false now
            rw [hkept rfl] at heq
            have hstep : t.step (.deed (.enter rid false past false now)) =
                { t with
                  entered := t.entered + 1
                  released := t.released ++
                    [((Exchange.fresh t.entered rid false).after past).drop] } := by
              simp only [step, if_neg hd, perform, heq]
              rfl
            rw [hstep]
            refine ⟨rfl, _, rfl, fun y hy => ?_⟩
            obtain rfl := List.mem_singleton.mp hy
            exact turnedAway_drop (List.mem_singleton_self _)

theorem Alike.skip (h : t.Alike omitted u) (hsecure : t.session.terms.secure = true)
    {e : Nat × Beat ο} (he : e.2.isOpenRequest = true) (hmem : e.2 ∈ omitted) :
    (t.stepAs e).Alike omitted u := by
  have hsecure' : { t with entered := e.1 }.session.terms.secure = true := hsecure
  obtain ⟨hview, more, hreleased, hmore⟩ := step_of_isOpenRequest hsecure' he
  obtain ⟨turned, hperm, hturned⟩ := h.released
  refine ⟨h.view.trans hview.symm, turned ++ more, ?_, fun y hy => ?_⟩
  · have hall := hperm.append_right more
    rw [List.append_assoc] at hall
    rw [Stage.stepAs, hreleased]
    exact hall
  · rcases List.mem_append.mp hy with hy | hy
    · exact hturned y hy
    · exact (hmore y hy).mono fun b hb => List.mem_singleton.mp hb ▸ hmem

theorem terms_step (t : Stage ο) (b : Beat ο) :
    (t.step b).session.terms = t.session.terms := by
  cases b with
  | call => exact congrArg Session.terms t.session_call
  | deed d =>
      simp only [step]
      split
      · rfl
      · exact t.terms_perform d

/-! ### Leaving requests out -/

/-- What comes of a run if the requests that come over an open channel are left out, compared with
what comes of the whole run. -/
structure SameWithout (t : Stage ο) (run : List (Nat × Beat ο)) : Prop where
  /-- The same comes of each beat that is left. -/
  history : t.history (run.filter fun e => !e.2.isOpenRequest) =
    (t.history run).filter fun m => !m.beat.isOpenRequest
  /-- In the end the same is to be seen, and the exchanges are the same but for those of the
  requests that were left out. -/
  alike : (t.playAs run).Alike ((run.map Prod.snd).filter Beat.isOpenRequest)
    (t.playAs (run.filter fun e => !e.2.isOpenRequest))

theorem Alike.playAs (h : t.Alike omitted u) (hsecure : t.session.terms.secure = true)
    (run : List (Nat × Beat ο)) (hrun : ∀ e ∈ run, e.2.isOpenRequest = true → e.2 ∈ omitted) :
    u.history (run.filter fun e => !e.2.isOpenRequest) =
        (t.history run).filter (fun m => !m.beat.isOpenRequest) ∧
      (t.playAs run).Alike omitted (u.playAs (run.filter fun e => !e.2.isOpenRequest)) := by
  -- the longer run goes ahead, and the shorter one follows only when a beat is kept
  induction run generalizing t u with
  | nil => exact ⟨rfl, h⟩
  | cons e run ih =>
      have hsecure' : (t.stepAs e).session.terms.secure = true := by
        rw [Stage.stepAs, terms_step]
        exact hsecure
      have hrest := fun e' he' => hrun e' (List.mem_cons_of_mem e he')
      cases he : e.2.isOpenRequest with
      | true =>
          have hlater := ih (h.skip hsecure he (hrun e List.mem_cons_self he)) hsecure' hrest
          have hgone : (t.moment e).beat.isOpenRequest = true := he
          simpa [history, he, hgone, Stage.playAs] using hlater
      | false =>
          obtain ⟨hmoment, hnext⟩ := h.stepAs e
          have hlater := ih hnext hsecure' hrest
          have hstays : (t.moment e).beat.isOpenRequest = false := he
          simpa [history, he, hstays, hmoment, Stage.playAs] using hlater

/-- Nothing comes of requests over an open channel that others could notice. -/
theorem sameWithout (hsecure : t.session.terms.secure = true) (run : List (Nat × Beat ο)) :
    t.SameWithout run := by
  obtain ⟨hhistory, halike⟩ := (Alike.refl _ t).playAs hsecure run fun e he hopen =>
    List.mem_filter.mpr ⟨List.mem_map_of_mem he, hopen⟩
  exact ⟨hhistory, halike⟩

end Stage

end HttpBinding
