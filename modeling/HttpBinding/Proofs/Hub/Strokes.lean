import HttpBinding.Proofs.Hub.Unfolding

/-!
# HttpBinding.Proofs.Hub.Strokes

Everything that can be done to a hub, by hand as well, has a chronicle.

A `Stroke` is a move, or something done by hand: a new table of countdowns, a new session that
nobody registers, and the start and stop of countdowns for named sessions in named tables. Recorders
may do the last two as well when they hear of something, the end of a session included. So sessions
may share an identifier, and any table may be worked by anybody, that of the registry included.
-/

namespace HttpBinding

namespace Hub

/-! ### Moves and strokes -/

theorem still_actOn (h : Hub) (key : Nat) (a : Exchange.Act) : Still h (h.actOn key a) := by
  have hserve : Still h (if (h.loose? key).isSome then h.serve key fun x => x.act a else h) := by
    split
    · exact still_serve ..
    · exact .refl h
  cases a with
  | depart => exact still_departRequester h key
  | take => exact still_mapExchange ..
  | leave => exact (still_departRequester h key).trans (still_mapExchange ..)
  | deliver | close | closeWith | compress | drop => exact hserve

theorem unfolds_move (h : Hub) (m : Move) : Unfolds h (h.move m) := by
  cases m with
  | connect rid secure => exact (still_newExchange ..).unfolds
  | create request key =>
      simp only [move]
      split
      · exact unfolds_create _ _ _
      · exact .refl h
  | forward rid k secure payload =>
      simp only [move]
      split
      · exact unfolds_forward _ _ _ _ _
      · exact .refl h
  | push id stanza => exact (murmurs_push ..).unfolds
  | closeId id => exact unfolds_closeId _ _
  | shutdown => exact unfolds_shutdown h
  | enter k key poll =>
      simp only [move]
      split
      · exact (murmurs_accept ..).unfolds
      · exact .refl h
  | deliver k stanza => exact (murmurs_deliver ..).unfolds
  | release k => exact (murmurs_release ..).unfolds
  | close k shutdown => exact unfolds_close _ _ _
  | listen k label actions => exact (still_addRecorder h k label (by simp)).unfolds
  | listenSilently k =>
      simp only [move]
      split
      · rename_i s hs
        have hobserved : Still h (h.setSession k (s.observe .silent).2) :=
          still_setSession hs ⟨rfl, rfl, fun hc => hc⟩
            (by simp [Session.stewards, Session.observe])
        exact hobserved.unfolds
      · exact .refl h
  | unlisten k label => exact (still_removeRecorder ..).unfolds
  | exchange key a => exact (still_actOn ..).unfolds
  | await name key millis => exact (still_spawn h rfl).unfolds
  | turn i =>
      simp only [move]
      split
      · rename_i job hi
        exact unfolds_turn hi
      · exact .refl h
  | pass millis => exact unfolds_pass h millis

end Hub

/-- One thing that is done to a hub: a move, or something done by hand. -/
inductive Stroke where
  | move (m : Move)
  /-- A new table of countdowns gets a name. -/
  | newTimer (name : String)
  /-- A session that is not registered begins and gets a name. -/
  | newSession (name : String) (id : StreamId) (terms : Terms)
  /-- A session gets a name. -/
  | nameSession (name : String) (k : Nat)
  | arm (timer session : String)
  | cancel (timer session : String)
  | cancelAll (timer : String)

namespace Hub

/-- What is done to the hub. What is done by hand is done as in a script. -/
def stroke (h : Hub) : Stroke → Hub
  | .move m => h.move m
  | .newTimer name => (Script.timerStep h (.newTimer name)).1
  | .newSession name id terms => (Script.sessionStep h (.newSession name id terms)).1
  | .nameSession name k => Script.nameSession h name k
  | .arm timer session => (Script.timerStep h (.arm timer session)).1
  | .cancel timer session => (Script.timerStep h (.cancel timer session)).1
  | .cancelAll timer => (Script.timerStep h (.cancelAll timer)).1

/-- One thing is done after the other. -/
def strokes (h : Hub) (ss : List Stroke) : Hub := ss.foldl stroke h

variable {h : Hub} {t : Nat}

theorem still_nameSession (h : Hub) (name : String) (k : Nat) :
    Still h (Script.nameSession h name k) := by
  unfold Script.nameSession
  have hnamed : Still h { h with names := { h.names with
      sessions := Script.rename h.names.sessions name k } } :=
    .of_eq rfl rfl rfl rfl rfl rfl rfl rfl
  cases h.names.sessions.lookup name with
  | none => exact hnamed
  | some before => exact hnamed.trans (still_reclaim ..)

theorem timer_append_empty (h : Hub) (t : Nat) :
    (h.timers ++ [({} : Countdowns)]).getD t {} = h.timer t := by
  rcases Nat.lt_or_ge t h.timers.length with hlt | hge
  · simp [timer, List.getElem?_append_left hlt]
  · have hnone : h.timers[t]? = none := List.getElem?_eq_none hge
    have hlast : ([{}] : List Countdowns)[t - h.timers.length]?.getD {} = {} := by
      cases t - h.timers.length <;> rfl
    simp [timer, List.getElem?_append_right hge, hnone, hlast]

/-- A new table is empty, as all tables are that are not there. -/
theorem still_newTimer (h : Hub) (name : String) :
    Still h (Script.timerStep h (.newTimer name)).1 where
  calm :=
    ⟨rfl, by simp [Script.timerStep], timer_append_empty h, rfl,
      ⟨[], (List.append_nil _).symm, by simp⟩, .refl _, fun _ hj _ => hj,
      fun _ s hs => ⟨s, hs, .refl s⟩⟩
  fit := by
    intro hf
    have hlength : (h.timers ++ [({} : Countdowns)]).length = h.timers.length + 1 := by simp
    refine ⟨Nat.lt_of_lt_of_eq (Nat.lt_succ_of_lt hf.registryTable) hlength.symm, fun e he => ?_,
      hf.keys, hf.attended, hf.single⟩
    refine Nat.lt_of_lt_of_eq (Nat.lt_succ_of_le ?_) hlength.symm
    rcases List.mem_cons.mp he with rfl | he
    · exact Nat.le_refl _
    · exact Nat.le_of_lt (hf.named e (List.mem_filter.mp he).1)

/-- What is done by hand to a named table for a named session. -/
theorem unfolds_byHand {f : Hub → Nat → Nat → Hub}
    (hf : ∀ h t k, (h.Fit → t < h.timers.length) → Murmurs h (f h t k)) (h : Hub)
    (timer session : String) :
    Unfolds h (Script.withTimer h timer fun t =>
      Script.withSession h session fun k _ => (f h t k, .done)).1 := by
  unfold Script.withTimer Script.withSession
  split
  · exact .refl h
  · rename_i t ht
    split
    · exact .refl h
    · split
      · exact .refl h
      · exact (hf h t _ fun hfit => hfit.lt_of_lookup ht).unfolds

/-- **Whatever is done has a chronicle.** -/
theorem unfolds_stroke (h : Hub) (a : Stroke) : Unfolds h (h.stroke a) := by
  cases a with
  | move m => exact unfolds_move h m
  | newTimer name => exact (still_newTimer h name).unfolds
  | newSession name id terms =>
      exact ((still_addSession h rfl).trans (still_nameSession ..)).unfolds
  | nameSession name k => exact (still_nameSession ..).unfolds
  | arm timer session => exact unfolds_byHand (fun _ _ k ht => murmurs_arm ht k) h timer session
  | cancel timer session =>
      exact unfolds_byHand (fun h t k _ => murmurs_cancel h t k) h timer session
  | cancelAll timer =>
      show Unfolds h (Script.withTimer h timer fun t =>
        (h.setTimer t (h.timer t).cancelAll, .done)).1
      unfold Script.withTimer
      split
      · exact .refl h
      · exact unfolds_cancelAll h _

theorem unfolds_strokes (h : Hub) (ss : List Stroke) : Unfolds h (h.strokes ss) :=
  .foldl unfolds_stroke ss h

theorem fit_start (settings : Settings) (server : Server) (sink : Sink) (ids : Nat → StreamId) :
    (Script.withService settings server sink ids).Fit where
  registryTable := by simp [Script.withService, registryTimer]
  named := by simp [Script.withService, registryTimer]
  keys := List.nodup_nil
  attended := fun k s hs => by simp [session?, Script.withService] at hs
  single := fun k s hs => by simp [session?, Script.withService] at hs

end Hub

end HttpBinding
