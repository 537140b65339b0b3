import CanBinder.NameIndependence

/-!
# Clients are independent

What a client is told, by pushes and by answers with a content, does not
depend on the requests of the others, unless they set a value: a run in which
only its own requests, the frames and the requests to set are left
(`Input.matters`) tells it the same (`client_independent`).

Two servers are compared that have the same signals, and audiences in which
the same names are heard by the client (`Server.Deaf`). An event that others
opened makes no difference to it, provided the daemon makes an event whenever
the client needs one; it is to this end that its subscriptions are assumed to
be answered so.
-/

/-- **The inputs that matter to a client**: the frames, the values that
are set, and its own requests. -/
def Input.matters (client : Client) : Input → Bool
  | .frame _ _ => true
  | .set _ _ _ _ => true
  | .timer _ _ => false
  | .get c _ => c = client
  | .list c => c = client
  | .subscribe c _ _ => c = client
  | .unsubscribe c _ _ => c = client

/-- The daemon makes the events that the client asks for. -/
def Input.obliges (client : Client) : Input → Prop
  | .subscribe c _ answers => c = client → ∀ n, answers.makeEvent n = true
  | _ => True

/-! ## Frames -/

section Receive

variable (cycle : BitVec 32) (canV64 : BitVec 64) (timestamp : Timeval)

theorem Signal.hears_present (s : Signal) (aud : Audience) (client : Client) (n : String) :
    (s.present cycle canV64 timestamp aud).1.Hears client n ↔ aud.Hears client n := by
  unfold Signal.present
  dsimp only
  split_ifs
  · exact aud.hears_publish _ _ client n
  · exact Iff.rfl

theorem Signal.isSome_of_present {s : Signal} {aud : Audience} {n : String}
    (h : ((s.present cycle canV64 timestamp aud).1 n).isSome) : (aud n).isSome := by
  unfold Signal.present at h
  dsimp only at h
  split_ifs at h
  · exact Audience.isSome_of_publish h
  · exact h

/-- A client is shown a signal if it hears its name. -/
theorem Signal.seenBy_present {s : Signal} {aud aud' : Audience} {client : Client}
    (h : ∀ n, aud'.Hears client n ↔ aud.Hears client n) :
    (s.present cycle canV64 timestamp aud').2.filterMap (Output.seenBy client)
      = (s.present cycle canV64 timestamp aud).2.filterMap (Output.seenBy client) := by
  unfold Signal.present
  dsimp only
  split_ifs
  · rw [Audience.seenBy_publish, Audience.seenBy_publish]
    simp only [h]
  · rfl

theorem hears_receiveSignals (l : List Signal) (aud : Audience) (client : Client) (n : String) :
    (receiveSignals cycle canV64 timestamp l aud).2.1.Hears client n ↔ aud.Hears client n := by
  induction l generalizing aud with
  | nil => exact Iff.rfl
  | cons s l ih =>
    rw [receiveSignals_snd_cons]
    exact (ih _).trans (s.hears_present cycle canV64 timestamp aud client n)

theorem isSome_of_receiveSignals {l : List Signal} {aud : Audience} {n : String}
    (h : ((receiveSignals cycle canV64 timestamp l aud).2.1 n).isSome) : (aud n).isSome := by
  induction l generalizing aud with
  | nil => exact h
  | cons s l ih =>
    rw [receiveSignals_snd_cons] at h
    exact Signal.isSome_of_present cycle canV64 timestamp (ih h)

/-- **A client is shown the signals whose names it hears.** -/
theorem seenBy_receiveSignals (l : List Signal) {aud aud' : Audience} {client : Client}
    (h : ∀ n, aud'.Hears client n ↔ aud.Hears client n) :
    (receiveSignals cycle canV64 timestamp l aud').2.2.filterMap (Output.seenBy client)
      = (receiveSignals cycle canV64 timestamp l aud).2.2.filterMap (Output.seenBy client) := by
  induction l generalizing aud aud' with
  | nil => rfl
  | cons s l ih =>
    have hs : ∀ n, (s.present cycle canV64 timestamp aud').1.Hears client n
        ↔ (s.present cycle canV64 timestamp aud).1.Hears client n := fun n => by
      rw [s.hears_present, s.hears_present, h]
    rw [receiveSignals_snd_cons, receiveSignals_snd_cons]
    dsimp only
    rw [List.filterMap_append, List.filterMap_append, ih hs,
      Signal.seenBy_present cycle canV64 timestamp h]

end Receive

namespace Server

/-- **Other audiences of a server, in which a client hears the same.** No name
is listened to that does not resolve. -/
structure Deaf (client : Client) (s : Server) (aud : Audience) : Prop where
  hears : ∀ n, aud.Hears client n ↔ s.audience.Hears client n
  known : ∀ n, (s.audience n).isSome → (s.lookup n).isSome
  known' : ∀ n, (aud n).isSome → (s.lookup n).isSome

/-- **Two servers that a client cannot tell apart.** -/
def Beside (client : Client) (s t : Server) : Prop :=
  ∃ aud, t = { s with audience := aud } ∧ Deaf client s aud

/-- Other audiences leave the signals of a channel what they are. -/
theorem receive_audience (s : Server) (aud : Audience) (c : CanId) (f : CanFrame)
    (timestamp : Timeval) :
    ({ s with audience := aud } : Server).receive c f timestamp
      = ({ (s.receive c f timestamp).1 with
            audience := (receiveSignals (s.channels c).cycle (canvalue2host f.data) timestamp
              (s.channels c).signals aud).2.1 },
          (receiveSignals (s.channels c).cycle (canvalue2host f.data) timestamp
            (s.channels c).signals aud).2.2) := by
  unfold receive
  dsimp only
  rw [receiveSignals_fst, receiveSignals_fst]
  rfl

section Deaf

variable {client : Client} {s : Server} {aud : Audience}

/-- Audiences in which no other name is open stay apart. -/
theorem Deaf.of_sameShape (h : Deaf client s aud) {s' : Server} {aud' : Audience}
    (hs : s.SameShape s') (hears : ∀ n, aud'.Hears client n ↔ s'.audience.Hears client n)
    (hknown : ∀ n, (s'.audience n).isSome → (s.audience n).isSome ∨ (s.lookup n).isSome)
    (hknown' : ∀ n, (aud' n).isSome → (aud n).isSome ∨ (s.lookup n).isSome) :
    Deaf client s' aud' where
  hears := hears
  known n hn := by
    rw [hs.isSome_lookup]
    exact (hknown n hn).elim (h.known n) id
  known' n hn := by
    rw [hs.isSome_lookup]
    exact (hknown' n hn).elim (h.known' n) id

/-- **A frame** tells the client the same, whatever the others listen to. -/
theorem Deaf.frame (h : Deaf client s aud) (f : CanFrame) (timestamp : Timeval) :
    ∃ aud', (({ s with audience := aud } : Server).frame f timestamp).1
        = { (s.frame f timestamp).1 with audience := aud' }
      ∧ Deaf client (s.frame f timestamp).1 aud'
      ∧ (({ s with audience := aud } : Server).frame f timestamp).2.filterMap
          (Output.seenBy client)
        = (s.frame f timestamp).2.filterMap (Output.seenBy client) := by
  have hs := s.sameShape_frame f timestamp
  unfold Server.frame at hs ⊢
  dsimp only at hs ⊢
  split_ifs at hs ⊢
  · exact ⟨aud, rfl, h, rfl⟩
  · exact ⟨aud, rfl, h.of_sameShape hs h.hears (fun _ => Or.inl) (fun _ => Or.inl), rfl⟩
  · rw [receive_audience]
    refine ⟨_, rfl, h.of_sameShape hs (fun n => ?_)
      (fun n hn => Or.inl (isSome_of_receiveSignals _ _ _ hn))
      (fun n hn => Or.inl (isSome_of_receiveSignals _ _ _ hn)),
      seenBy_receiveSignals _ _ _ _ h.hears⟩
    exact (hears_receiveSignals _ _ _ _ aud client n).trans
      ((h.hears n).trans (hears_receiveSignals _ _ _ _ s.audience client n).symm)
  · exact ⟨aud, rfl, h, rfl⟩

/-- A value that is set is set in both. -/
theorem set_audience (s : Server) (aud : Audience) (c : Client) (event value : Option String) :
    ({ s with audience := aud } : Server).set c event value
      = ({ (s.set c event value).1 with audience := aud }, (s.set c event value).2) := by
  cases event with
  | none => rfl
  | some n =>
    cases value with
    | none => rfl
    | some text =>
      have hlookup : ({ s with audience := aud } : Server).lookup n = s.lookup n := rfl
      unfold set
      dsimp only
      rw [hlookup]
      cases s.lookup n with
      | none => rfl
      | some p =>
        unfold assign
        dsimp only
        split_ifs
        · rfl
        · rfl

theorem Deaf.set (h : Deaf client s aud) (c : Client) (event value : Option String) :
    Deaf client (s.set c event value).1 aud := by
  have haud : (s.set c event value).1.audience = s.audience := by
    cases event with
    | none => rfl
    | some n =>
      cases value with
      | none => rfl
      | some text =>
        cases hl : s.lookup n with
        | none => rw [set_fst_of_none hl]
        | some p => rw [set_fst_of_lookup hl, audience_assign]
  refine h.of_sameShape (s.sameShape_set c event value) (fun n => ?_) (fun n hn => Or.inl ?_)
    (fun n => Or.inl)
  · rw [haud]
    exact h.hears n
  · rwa [haud] at hn

/-! ## Requests for events -/

/-- The audience of one name changes in both. -/
theorem Deaf.update (h : Deaf client s aud) {m : String} {cl cl' : Option (List Client)}
    (hears : client ∈ cl'.getD [] ↔ client ∈ cl.getD [])
    (hcl : cl.isSome → (s.audience m).isSome ∨ (s.lookup m).isSome)
    (hcl' : cl'.isSome → (aud m).isSome ∨ (s.lookup m).isSome) :
    Deaf client { s with audience := Function.update s.audience m cl }
      (Function.update aud m cl') := by
  refine h.of_sameShape (s.sameShape_audience _) (fun n => ?_) (fun n hn => ?_) (fun n hn => ?_)
  · unfold Audience.Hears
    dsimp only
    by_cases hn : n = m
    · rw [hn, Function.update_self, Function.update_self]
      exact hears
    · rw [Function.update_of_ne hn, Function.update_of_ne hn]
      exact h.hears n
  · dsimp only at hn
    by_cases hm : n = m
    · rw [hm, Function.update_self] at hn
      rw [hm]
      exact hcl hn
    · rw [Function.update_of_ne hm] at hn
      exact Or.inl hn
  · by_cases hm : n = m
    · rw [hm, Function.update_self] at hn
      rw [hm]
      exact hcl' hn
    · rw [Function.update_of_ne hm] at hn
      exact Or.inl hn

/-- The audience of one name changes in one, without the client. -/
theorem Deaf.update_left (h : Deaf client s aud) {m : String} {cl : Option (List Client)}
    (hears : client ∈ cl.getD [] ↔ client ∈ (s.audience m).getD [])
    (hcl : cl.isSome → (s.audience m).isSome ∨ (s.lookup m).isSome) :
    Deaf client { s with audience := Function.update s.audience m cl } aud := by
  have hself : Function.update aud m (aud m) = aud := Function.update_eq_self m aud
  have hears' : client ∈ (aud m).getD [] ↔ client ∈ cl.getD [] := (h.hears m).trans hears.symm
  have hupdate := h.update hears' hcl Or.inl
  rwa [hself] at hupdate

/-- **A subscription of the client** is taken in both or in neither. -/
theorem Deaf.admits_iff (h : Deaf client s aud) {answers : DaemonAnswers} {m : String}
    (hmake : answers.makeEvent m = true) :
    ({ s with audience := aud } : Server).Admits answers m ↔ s.Admits answers m := by
  have hlookup : ({ s with audience := aud } : Server).lookup m = s.lookup m := rfl
  unfold Admits
  rw [hlookup]
  refine and_congr_right (fun _ => ⟨fun hor => Or.inr ⟨?_, hmake⟩, fun hor => Or.inr ⟨?_, hmake⟩⟩)
  · exact hor.elim (h.known' m) And.left
  · exact hor.elim (h.known m) And.left

theorem Deaf.subscribeOne (h : Deaf client s aud) {answers : DaemonAnswers}
    (hmake : ∀ m, answers.makeEvent m = true) (apply : List (String × Json)) (m : String) :
    ∃ aud', (Server.subscribeOne client answers ({ s with audience := aud }, apply) m).1
        = ({ (Server.subscribeOne client answers (s, apply) m).1.1 with audience := aud' },
            (Server.subscribeOne client answers (s, apply) m).1.2)
      ∧ Deaf client (Server.subscribeOne client answers (s, apply) m).1.1 aud'
      ∧ (Server.subscribeOne client answers ({ s with audience := aud }, apply) m).2
        = (Server.subscribeOne client answers (s, apply) m).2 := by
  have hlookup : ({ s with audience := aud } : Server).lookup m = s.lookup m := rfl
  have hiff := h.admits_iff (hmake m)
  rw [subscribeOne_eq, subscribeOne_eq]
  dsimp only
  rw [if_congr hiff rfl rfl, if_congr hiff rfl rfl, hlookup, valueOf_audience]
  refine ⟨_, rfl, h.update ?_ (fun hsome => ?_) (fun hsome => ?_), rfl⟩
  · rw [mem_admitted, mem_admitted]
    refine or_congr (h.hears m) (and_congr_right (fun _ => and_congr_right (fun _ => ?_)))
    exact ⟨fun hor => Or.inr ⟨hor.elim (h.known' m) And.left, hmake m⟩,
      fun hor => Or.inr ⟨hor.elim (h.known m) And.left, hmake m⟩⟩
  · exact (isSome_admitted.mp hsome).imp_right And.left
  · exact (isSome_admitted.mp hsome).imp_right And.left

/-- **A subscription of another client** changes nothing for it. -/
theorem Beside.subscribeOne_left {c : Client} (hc : c ≠ client) (answers : DaemonAnswers)
    {x : Server × List (String × Json)} {t : Server} (h : Beside client x.1 t) (m : String) :
    Beside client (Server.subscribeOne c answers x m).1.1 t := by
  obtain ⟨aud, rfl, h⟩ := h
  rw [subscribeOne_eq]
  refine ⟨aud, rfl, h.update_left ?_
    (fun hsome => (isSome_admitted.mp hsome).imp_right And.left)⟩
  rw [mem_admitted]
  exact or_iff_left (fun hand => hc hand.1.symm)

/-- **A name that the client leaves** is left in both. -/
theorem Deaf.unsubscribeOne (h : Deaf client s aud) (answers : DaemonAnswers) (m : String) :
    ∃ aud', (Server.unsubscribeOne client answers { s with audience := aud } m).1
        = { (Server.unsubscribeOne client answers s m).1 with audience := aud' }
      ∧ Deaf client (Server.unsubscribeOne client answers s m).1 aud' := by
  rw [unsubscribeOne_fst, unsubscribeOne_fst]
  refine ⟨_, rfl, h.update ?_ (fun hsome => ?_) (fun hsome => ?_)⟩
  · rw [mem_dismissed, mem_dismissed]
    exact and_congr_left (fun _ => h.hears m)
  · rw [isSome_dismissed] at hsome
    exact Or.inl hsome
  · rw [isSome_dismissed] at hsome
    exact Or.inl hsome

theorem Beside.unsubscribeOne_left {c : Client} (hc : c ≠ client) {t : Server}
    (h : Beside client s t) (answers : DaemonAnswers) (m : String) :
    Beside client (Server.unsubscribeOne c answers s m).1 t := by
  obtain ⟨aud, rfl, h⟩ := h
  rw [unsubscribeOne_fst]
  refine ⟨aud, rfl, h.update_left ?_ (fun hsome => ?_)⟩
  · rw [mem_dismissed]
    exact and_iff_left (fun hand => hc hand.1.symm)
  · rw [isSome_dismissed] at hsome
    exact Or.inl hsome

end Deaf

/-- What every named subscription keeps, a request to subscribe keeps. -/
theorem subscribeSignal_keeps {client : Client} {answers : DaemonAnswers}
    {P : Server × List (String × Json) → Prop}
    (hone : ∀ x m, P x → P (subscribeOne client answers x m).1) {depth : ℕ}
    {x x' : Server × List (String × Json)} {m : String} {e : ℕ} (h : P x)
    (hr : subscribeSignal client answers depth x m = some (x', e)) : P x' := by
  induction depth generalizing x x' m e with
  | zero => cases hr
  | succ depth ih =>
    rw [subscribeSignal] at hr
    split_ifs at hr with hm
    · exact Binder.forAll_keeps (fun _ _ _ _ _ hx hx' => ih hx hx') h hr
    · have hx := hone x m h
      rwa [Option.some.inj hr] at hx

theorem unsubscribeSignal_keeps {client : Client} {answers : DaemonAnswers} {P : Server → Prop}
    (hone : ∀ x m, P x → P (unsubscribeOne client answers x m).1) {depth : ℕ} {x x' : Server}
    {m : String} {e : ℕ} (h : P x)
    (hr : unsubscribeSignal client answers depth x m = some (x', e)) : P x' := by
  induction depth generalizing x x' m e with
  | zero => cases hr
  | succ depth ih =>
    rw [unsubscribeSignal] at hr
    split_ifs at hr with hm
    · exact Binder.forAll_keeps (fun _ _ _ _ _ hx hx' => ih hx hx') h hr
    · have hx := hone x m h
      rwa [Option.some.inj hr] at hx

section Deaf

variable {client : Client} {s : Server} {aud : Audience}

/-- **The verb `subscribe`** answers the client the same. -/
theorem Beside.subscribe {t : Server} (h : Beside client s t) {answers : DaemonAnswers}
    (hmake : ∀ m, answers.makeEvent m = true) {event : Option String} {s' : Server}
    {out : List Output} (hr : s.subscribe client event answers = some (s', out)) :
    ∃ t', t.subscribe client event answers = some (t', out) ∧ Beside client s' t' := by
  cases event with
  | none =>
    cases hr
    exact ⟨t, rfl, h⟩
  | some m =>
    obtain ⟨⟨⟨s₁, apply⟩, e⟩, hsub, heq⟩ := Option.map_eq_some_iff.mp hr
    obtain ⟨⟨t₁, apply'⟩, e', hsub', ⟨hbeside, happly⟩, he⟩ := subscribeSignal_rel
      (fun x y => Beside client x.1 y.1 ∧ y.2 = x.2) True (s := (s, [])) (t := (t, []))
      (by
        rintro x y ⟨⟨aud, heq, -⟩, -⟩
        rw [heq])
      (by
        rintro ⟨x, apply⟩ ⟨y, apply'⟩ m ⟨⟨aud, hy, hx⟩, happly⟩
        obtain rfl : y = { x with audience := aud } := hy
        obtain rfl : apply' = apply := happly
        obtain ⟨aud', heq, hdeaf, herr⟩ := hx.subscribeOne hmake apply' m
        have hfst := congrArg Prod.fst heq
        have hsnd := congrArg Prod.snd heq
        exact ⟨⟨⟨aud', hfst, hdeaf⟩, hsnd⟩, fun _ => herr⟩)
      ⟨h, rfl⟩ hsub
    rw [he trivial] at hsub'
    cases heq
    obtain rfl : apply' = apply := happly
    exact ⟨t₁, Option.map_eq_some_iff.mpr ⟨_, hsub', rfl⟩, hbeside⟩

/-- **The verb `unsubscribe`** leaves the client the same. -/
theorem Beside.unsubscribe {t : Server} (h : Beside client s t) {answers : DaemonAnswers}
    {args : Option Json} {s' : Server} {out : List Output}
    (hr : s.unsubscribe client args answers = some (s', out)) :
    ∃ t' out', t.unsubscribe client args answers = some (t', out') ∧ Beside client s' t' := by
  unfold Server.unsubscribe at hr ⊢
  obtain ⟨names, hnames, hr⟩ := Option.bind_eq_some_iff.mp hr
  obtain ⟨⟨s₁, e⟩, hall, heq⟩ := Option.map_eq_some_iff.mp hr
  obtain ⟨t₁, e', hall', hR, -⟩ := Binder.forAll_rel (Beside client) False (t := t)
    (fun m _ x y x' e h' hr' => by
      obtain ⟨y', e', hy, hR⟩ := unsubscribeSignal_rel (Beside client)
        (by
          rintro x y ⟨aud, rfl, -⟩
          rfl)
        (by
          rintro x y m ⟨aud, rfl, hx⟩
          exact hx.unsubscribeOne answers m) h' hr'
      exact ⟨y', e', hy, hR, False.elim⟩) 0 h False.elim hall
  cases heq
  exact ⟨t₁, _, Option.bind_eq_some_iff.mpr
    ⟨names, hnames, Option.map_eq_some_iff.mpr ⟨_, hall', rfl⟩⟩, hR⟩

/-- The requests for events of another client. -/
theorem Beside.subscribe_left {t : Server} (h : Beside client s t) {c : Client} (hc : c ≠ client)
    {answers : DaemonAnswers} {event : Option String} {s' : Server} {out : List Output}
    (hr : s.subscribe c event answers = some (s', out)) : Beside client s' t := by
  cases event with
  | none =>
    cases hr
    exact h
  | some m =>
    obtain ⟨⟨⟨s₁, apply⟩, e⟩, hsub, heq⟩ := Option.map_eq_some_iff.mp hr
    cases heq
    exact subscribeSignal_keeps (P := fun x => Beside client x.1 t)
      (fun x m hx => Beside.subscribeOne_left hc answers hx m) (x := (s, [])) h hsub

theorem Beside.unsubscribe_left {t : Server} (h : Beside client s t) {c : Client}
    (hc : c ≠ client) {answers : DaemonAnswers} {args : Option Json} {s' : Server}
    {out : List Output} (hr : s.unsubscribe c args answers = some (s', out)) :
    Beside client s' t := by
  unfold Server.unsubscribe at hr
  obtain ⟨names, -, hr⟩ := Option.bind_eq_some_iff.mp hr
  obtain ⟨⟨s₁, e⟩, hall, heq⟩ := Option.map_eq_some_iff.mp hr
  cases heq
  exact Binder.forAll_keeps (P := fun x => Beside client x t)
    (fun m _ x x' e' hx hr' => unsubscribeSignal_keeps (P := fun x => Beside client x t)
      (fun x m hx => hx.unsubscribeOne_left hc answers m) hx hr') h hall

/-! ## Steps and runs -/

/-- Answers to another client are not for this one. -/
theorem seenBy_reply {c : Client} (hc : c ≠ client) {o : Output}
    (h : (∃ j, o = .success c j) ∨ ∃ status, o = .fail c status) :
    [o].filterMap (Output.seenBy client) = [] := by
  rcases h with ⟨j, rfl⟩ | ⟨status, rfl⟩
  · cases j with
    | none => rfl
    | some j => simp [Output.seenBy, hc]
  · rfl

/-- **An input that matters to a client** tells it the same in both. -/
theorem Beside.step {t : Server} (h : Beside client s t) {e : Input} (hobl : e.obliges client)
    (he : e.matters client = true) {s' : Server} {out : List Output}
    (hs : s.step e = some (s', out)) :
    ∃ t' out', t.step e = some (t', out') ∧ Beside client s' t'
      ∧ out'.filterMap (Output.seenBy client) = out.filterMap (Output.seenBy client) := by
  cases e with
  | frame f timestamp =>
    obtain ⟨rfl, rfl⟩ := Machine.eq_of_some hs
    obtain ⟨aud, rfl, h⟩ := h
    obtain ⟨aud', heq, hdeaf, hout⟩ := h.frame f timestamp
    exact ⟨_, _, rfl, ⟨aud', heq, hdeaf⟩, hout⟩
  | set c event value sent =>
    obtain ⟨rfl, rfl⟩ := Machine.eq_of_some hs
    obtain ⟨aud, rfl, h⟩ := h
    exact ⟨_, _, congrArg some (s.set_audience aud c event value),
      ⟨aud, rfl, h.set c event value⟩, rfl⟩
  | get c event =>
    cases hs
    obtain ⟨aud, rfl, h⟩ := h
    exact ⟨_, _, rfl, ⟨aud, rfl, h⟩, rfl⟩
  | list c =>
    cases hs
    obtain ⟨aud, rfl, h⟩ := h
    exact ⟨_, _, rfl, ⟨aud, rfl, h⟩, rfl⟩
  | subscribe c event answers =>
    obtain rfl : c = client := of_decide_eq_true he
    obtain ⟨t', ht, hR⟩ := h.subscribe (hobl rfl) hs
    exact ⟨t', out, ht, hR, rfl⟩
  | unsubscribe c args answers =>
    obtain rfl : c = client := of_decide_eq_true he
    obtain ⟨t', out', ht, hR⟩ := h.unsubscribe hs
    refine ⟨t', out', ht, hR, ?_⟩
    obtain ⟨o, rfl, ho⟩ := unsubscribe_reply hs
    obtain ⟨o', rfl, ho'⟩ := unsubscribe_reply ht
    have hnone : ∀ x, (x = Output.success c none ∨ ∃ status, x = .fail c status) →
        [x].filterMap (Output.seenBy c) = [] := by
      rintro x (rfl | ⟨status, rfl⟩)
      · rfl
      · rfl
    rw [hnone o ho, hnone o' ho']
  | timer _ _ => exact absurd he Bool.false_ne_true

/-- **An input that does not** tells it nothing. -/
theorem Beside.step_left {t : Server} (h : Beside client s t) {e : Input}
    (he : e.matters client = false) {s' : Server} {out : List Output}
    (hs : s.step e = some (s', out)) :
    Beside client s' t ∧ out.filterMap (Output.seenBy client) = [] := by
  cases e with
  | frame f timestamp => exact absurd he Bool.false_ne_true.symm
  | set c event value sent => exact absurd he Bool.false_ne_true.symm
  | timer x sent =>
    cases hs
    refine ⟨h, ?_⟩
    rcases s.timer_out x with hout | ⟨f, hout⟩
    · rw [hout]
      rfl
    · rw [hout]
      rfl
  | get c event =>
    cases hs
    obtain ⟨o, hout, ho⟩ := s.get_reply c event
    rw [hout]
    exact ⟨h, seenBy_reply (of_decide_eq_false he) (ho.imp_left (fun ⟨j, hj⟩ => ⟨some j, hj⟩))⟩
  | list c =>
    cases hs
    exact ⟨h, seenBy_reply (of_decide_eq_false he) (Or.inl ⟨_, rfl⟩)⟩
  | subscribe c event answers =>
    have hc : c ≠ client := of_decide_eq_false he
    obtain ⟨o, rfl, ho⟩ := subscribe_reply hs
    exact ⟨h.subscribe_left hc hs, seenBy_reply hc ho⟩
  | unsubscribe c args answers =>
    have hc : c ≠ client := of_decide_eq_false he
    obtain ⟨o, rfl, ho⟩ := unsubscribe_reply hs
    exact ⟨h.unsubscribe_left hc hs, seenBy_reply hc (ho.imp_left (fun h => ⟨none, h⟩))⟩

/-- **A run tells a client what its inputs that matter to the client tell.** -/
theorem Beside.run {t : Server} (h : Beside client s t) {ins : List Input} {s' : Server}
    {outs : List Output} (hobl : ∀ e ∈ ins, Input.obliges client e)
    (hr : Server.run s ins = some (s', outs)) :
    ∃ t' outs', Server.run t (ins.filter (Input.matters client)) = some (t', outs')
      ∧ Beside client s' t'
      ∧ outs'.filterMap (Output.seenBy client) = outs.filterMap (Output.seenBy client) :=
  Machine.run_filter (fun _ _ _ _ _ hR ho he hs => hR.step ho he hs)
    (fun _ _ _ _ _ hR he hs => hR.step_left he hs) h hobl hr

end Deaf

end Server

namespace Binder

/-- To hear is to be subscribed. -/
theorem hears_iff_subscribed {b : Binder} {client : Client} {n : String} :
    b.audience.Hears client n ↔ b.Subscribed client n := by
  unfold Audience.Hears Subscribed audience
  cases b.getEvent n with
  | none => simp
  | some event => simp

/-- **What a client is told does not depend on the requests of the others**,
unless they set a value. Left with the inputs that matter to the client, every
run is a run again, with the same pushes to the client and the same answers that
have a content; and after it, the client is subscribed to the same names and
would be answered `get` the same. -/
theorem client_independent {jobj : Json} {d : Dict} (hload : canDefineInit jobj = some d)
    {client : Client} {ins : List Input} (hmake : ∀ e ∈ ins, Input.obliges client e) {b : Binder}
    {outs : List Output} (hrun : run (start d) ins = some (b, outs)) :
    ∃ b' outs', run (start d) (ins.filter (Input.matters client)) = some (b', outs')
      ∧ outs'.filterMap (Output.seenBy client) = outs.filterMap (Output.seenBy client)
      ∧ (∀ n, b'.Subscribed client n ↔ b.Subscribed client n)
      ∧ ∀ event, b'.get client event = b.get client event := by
  have hd := Dict.registered_of_canDefineInit hload
  have hstart := follows_start hd.sound.pristine
  have hbeside : Server.Beside client (start d).server (start d).server :=
    ⟨_, rfl, fun _ => Iff.rfl, fun n hn => absurd hn Bool.false_ne_true,
      fun n hn => absurd hn Bool.false_ne_true⟩
  obtain ⟨s, outs', hrun', ⟨aud, hs, hdeaf⟩, hout⟩ :=
    hbeside.run hmake (hstart.to_server_run hd hrun)
  obtain ⟨b', hb', rfl, hfollow⟩ := hstart.of_server_run hd hrun'
  refine ⟨b', outs', hb', hout, fun n => ?_, fun event => ?_⟩
  · have haud : b'.audience = aud := congrArg Server.audience hs
    rw [← hears_iff_subscribed, ← hears_iff_subscribed, haud]
    exact hdeaf.hears n
  · rw [hfollow.server_get hd, (hstart.run hd.sound.wf hrun).server_get hd, hs]
    rfl

/-- A client beside one that subscribes to everything: it is answered with the
speed, and pushed it once. -/
theorem client_independent_sample :
    ∃ d b b' outs outs', canDefineInit sampleConfig = some d
      ∧ run (start d) busyInputs = some (b, outs)
      ∧ (outs.filterMap (Output.seenBy 1)).length = 2
      ∧ (busyInputs.filter (Input.matters 1)).length = 6
      ∧ run (start d) (busyInputs.filter (Input.matters 1)) = some (b', outs')
      ∧ outs'.filterMap (Output.seenBy 1) = outs.filterMap (Output.seenBy 1) := by
  have hload : (canDefineInit sampleConfig).bind (fun d => (run (start d) busyInputs).map
      (fun r => (r.2.filterMap (Output.seenBy 1)).length)) = some 2 := by
    decide
  obtain ⟨d, hd, hload⟩ := Option.bind_eq_some_iff.mp hload
  obtain ⟨⟨b, outs⟩, hr, hlength⟩ := Option.map_eq_some_iff.mp hload
  have hmake : ∀ e ∈ busyInputs, Input.obliges 1 e := by
    unfold busyInputs
    simp [Input.obliges]
  obtain ⟨b', outs', hr', hout, -, -⟩ := client_independent hd hmake hr
  exact ⟨d, b, b', outs, outs', hd, hr, hlength, by decide, hr', hout⟩

end Binder
