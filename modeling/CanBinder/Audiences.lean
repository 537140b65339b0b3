import CanBinder.SignalServer

/-!
# One name of the server

What the server does is done name by name. A request for events changes the
audience of a name by what that audience is (`Server.admitted`,
`Server.dismissed`), and a frame by the signals that bear the name. What names
there are, and what they resolve to, never changes (`Server.SameShape`).

An output is given under a name (`Output.under`), or it is given to a client
(`Output.seenBy`), and it is the audience of a name that decides which clients
hear what is published there (`Audience.Hears`).
-/

/-! ## What stays -/

/-- The definitions of the entries are what they were. -/
theorem Entry.map_toPropDef_receive (canV64 : BitVec 64) (l : List Entry) :
    (Entry.receive canV64 l).map Entry.toPropDef = l.map Entry.toPropDef := by
  induction l with
  | nil => rfl
  | cons e l ih =>
    rw [Entry.receive]
    split_ifs
    · rw [List.map_map]
      rfl
    · rw [List.map_cons, List.map_cons, ih]
      rfl

namespace Signal

/-- The definitions of the entries. -/
def layout (g : Signal) : List PropDef := g.entries.map Entry.toPropDef

/-- A signal has the name of its first definition. -/
theorem name_eq (s : Signal) : some s.name = s.layout.head?.map PropDef.name := by
  unfold name head layout
  rw [List.head?_map, List.head?_eq_some_head s.nonempty]
  rfl

/-- Signals of the same definitions have the same names. -/
theorem map_name_of_layout {l l' : List Signal} (h : l.map layout = l'.map layout) :
    l.map name = l'.map name := by
  have hnames : ∀ l : List Signal, (l.map name).map some
      = (l.map layout).map (fun ps => ps.head?.map PropDef.name) := fun l => by
    rw [List.map_map, List.map_map]
    exact List.map_congr_left (fun g _ => g.name_eq)
  refine List.map_injective_iff.mpr (Option.some_injective String) ?_
  rw [hnames, hnames, h]

/-- A single entry is the first. -/
theorem head_of_single {g : Signal} {e : Entry} (h : g.entries = [e]) : g.head = e := by
  unfold head
  simp only [h, List.head_cons]

/-- A single entry takes the value of the frame. -/
theorem receiveOne_fst (cycle : BitVec 32) (canV64 : BitVec 64) (timestamp : Timeval)
    (g : Signal) :
    ∃ u, (u = timestamp ∨ u = g.updatetime)
      ∧ (g.receiveOne cycle canV64 timestamp).1 = { g.setHead
        (g.head.decode g.head.curValue (g.head.raw canV64)).2 with updatetime := u } := by
  unfold receiveOne
  split
  · rename_i c hc
    exact ⟨g.updatetime, Or.inr rfl, by rw [hc]; rfl⟩
  · rename_i c hc
    exact ⟨timestamp, Or.inl rfl, by rw [hc]⟩
  · rename_i c hc
    rw [hc]
    split_ifs
    · exact ⟨timestamp, Or.inl rfl, rfl⟩
    · exact ⟨g.updatetime, Or.inr rfl, rfl⟩

/-- Several entries take their values, and the last active one is shown, unless
one could not take its value. -/
theorem receiveChain_fst (cycle : BitVec 32) (canV64 : BitVec 64) (timestamp : Timeval)
    (g : Signal) :
    ∃ u, (u = timestamp ∨ u = g.updatetime) ∧ (g.receiveChain cycle canV64 timestamp).1 = {
      entries := Entry.receive canV64 g.entries
      nonempty := Entry.receive_ne_nil g.nonempty
      applied :=
        if g.entries.any (fun e => e.unreadable canV64) then g.applied
        else (lastIdx (fun e => e.active canV64) g.entries).or g.applied
      updatetime := u } := by
  unfold receiveChain
  dsimp only
  split_ifs
  · exact ⟨g.updatetime, Or.inr rfl, rfl⟩
  · exact ⟨timestamp, Or.inl rfl, rfl⟩
  · exact ⟨g.updatetime, Or.inr rfl, rfl⟩

theorem layout_setHead (g : Signal) (c : DataContent) : (g.setHead c).layout = g.layout := by
  show _ :: g.entries.tail.map Entry.toPropDef = g.entries.map Entry.toPropDef
  rw [← List.cons_head_tail g.nonempty]
  rfl

/-- A frame changes no definition. -/
theorem layout_receive (cycle : BitVec 32) (canV64 : BitVec 64) (timestamp : Timeval)
    (g : Signal) : (g.receive cycle canV64 timestamp).1.layout = g.layout := by
  unfold receive
  split_ifs with hlen
  · obtain ⟨u, -, hu⟩ := g.receiveOne_fst cycle canV64 timestamp
    rw [hu]
    exact g.layout_setHead _
  · obtain ⟨u, -, hu⟩ := g.receiveChain_fst cycle canV64 timestamp
    rw [hu]
    exact Entry.map_toPropDef_receive canV64 g.entries

@[simp] theorem name_setHead (s : Signal) (c : DataContent) : (s.setHead c).name = s.name := rfl

/-- **A frame leaves a signal its name.** -/
@[simp] theorem name_receive (cycle : BitVec 32) (canV64 : BitVec 64) (timestamp : Timeval)
    (s : Signal) : (s.receive cycle canV64 timestamp).1.name = s.name := by
  have hname := (s.receive cycle canV64 timestamp).1.name_eq
  rw [layout_receive, ← s.name_eq] at hname
  exact Option.some.inj hname

end Signal

/-! ## A frame, signal by signal -/

section Receive

variable (cycle : BitVec 32) (canV64 : BitVec 64) (timestamp : Timeval)

/-- Each signal receives the frame, whoever listens. -/
theorem receiveSignals_fst (l : List Signal) (aud : Audience) :
    (receiveSignals cycle canV64 timestamp l aud).1
      = l.map (fun s => (s.receive cycle canV64 timestamp).1) := by
  induction l generalizing aud with
  | nil => rfl
  | cons s l ih =>
    rw [receiveSignals]
    dsimp only
    rw [ih, List.map_cons]

/-- The signal that shows itself to an audience, if it is due. -/
def Signal.present (s : Signal) (aud : Audience) : Audience × List Output :=
  let r := s.receive cycle canV64 timestamp
  if r.2 then aud.publish r.1.name r.1.value else (aud, [])

/-- The audiences and the outputs are those of the signals in turn. -/
theorem receiveSignals_snd_cons (s : Signal) (l : List Signal) (aud : Audience) :
    (receiveSignals cycle canV64 timestamp (s :: l) aud).2
      = ((receiveSignals cycle canV64 timestamp l
          (s.present cycle canV64 timestamp aud).1).2.1,
        (s.present cycle canV64 timestamp aud).2
          ++ (receiveSignals cycle canV64 timestamp l
            (s.present cycle canV64 timestamp aud).1).2.2) := rfl

end Receive

/-! ## Outputs in view -/

/-- What is given to the clients under a name. -/
def Output.under (n : String) : Output → Option Output
  | .push m value clients => if m = n then some (.push m value clients) else none
  | .drop m => if m = n then some (.drop m) else none
  | _ => none

/-- What a client is told: the pushes it is among the clients of, and the
answers to it that have a content. -/
def Output.seenBy (client : Client) : Output → Option Output
  | .push n value clients => if client ∈ clients then some (.push n value [client]) else none
  | .success c (some j) => if c = client then some (.success c (some j)) else none
  | _ => none

namespace Audience

/-- A client is among those who listen to a name. -/
def Hears (aud : Audience) (client : Client) (n : String) : Prop :=
  client ∈ (aud n).getD []

instance (aud : Audience) (client : Client) (n : String) : Decidable (aud.Hears client n) :=
  inferInstanceAs (Decidable (_ ∈ _))

/-- A publication under one name is none under the others. -/
theorem publish_of_ne {name n : String} (hn : name ≠ n) (aud : Audience) (value : Option Json) :
    (aud.publish name value).1 n = aud n
      ∧ (aud.publish name value).2.filterMap (Output.under n) = [] := by
  unfold publish
  cases aud name with
  | none => exact ⟨rfl, rfl⟩
  | some cl =>
    cases cl with
    | nil => exact ⟨Function.update_of_ne hn.symm _ _, by simp [Output.under, hn]⟩
    | cons c cl => exact ⟨rfl, by simp [Output.under, hn]⟩

/-- A publication is decided by who listens to its name. -/
theorem publish_congr {aud aud' : Audience} {n : String} (h : aud' n = aud n)
    (value : Option Json) :
    (aud'.publish n value).1 n = (aud.publish n value).1 n
      ∧ (aud'.publish n value).2 = (aud.publish n value).2 := by
  unfold publish
  rw [h]
  cases hcl : aud n with
  | none => exact ⟨h.trans rfl, rfl⟩
  | some cl =>
    cases cl with
    | nil =>
      dsimp only
      rw [Function.update_self, Function.update_self]
      exact ⟨rfl, rfl⟩
    | cons c cl => exact ⟨h.trans rfl, rfl⟩

/-- **A publication keeps those who hear**: only a name with nobody is
closed. -/
theorem hears_publish (aud : Audience) (name : String) (value : Option Json) (client : Client)
    (n : String) : (aud.publish name value).1.Hears client n ↔ aud.Hears client n := by
  unfold publish
  cases hcl : aud name with
  | none => exact Iff.rfl
  | some cl =>
    cases cl with
    | cons c cl => exact Iff.rfl
    | nil =>
      unfold Hears
      dsimp only
      by_cases hn : n = name
      · rw [hn, Function.update_self, hcl]
        exact Iff.rfl
      · rw [Function.update_of_ne hn]

/-- It opens no name. -/
theorem isSome_of_publish {aud : Audience} {name : String} {value : Option Json} {n : String}
    (h : ((aud.publish name value).1 n).isSome) : (aud n).isSome := by
  unfold publish at h
  cases hcl : aud name with
  | none =>
    rw [hcl] at h
    exact h
  | some cl =>
    rw [hcl] at h
    cases cl with
    | cons c cl => exact h
    | nil =>
      dsimp only at h
      by_cases hn : n = name
      · rw [hn, Function.update_self] at h
        exact absurd h Bool.false_ne_true
      · rwa [Function.update_of_ne hn] at h

/-- **Who hears is given the value**, once. -/
theorem seenBy_publish (aud : Audience) (name : String) (value : Option Json) (client : Client) :
    (aud.publish name value).2.filterMap (Output.seenBy client)
      = if aud.Hears client name then [.push name value [client]] else [] := by
  have hears : aud.Hears client name ↔ client ∈ (aud name).getD [] := Iff.rfl
  unfold publish
  cases hcl : aud name with
  | none =>
    rw [hcl] at hears
    rw [if_neg (mt hears.mp List.not_mem_nil)]
    rfl
  | some cl =>
    rw [hcl] at hears
    cases cl with
    | nil =>
      rw [if_neg (mt hears.mp List.not_mem_nil)]
      rfl
    | cons c cl =>
      by_cases hmem : client ∈ c :: cl
      · rw [if_pos (hears.mpr hmem)]
        simp [Output.seenBy, hmem]
      · rw [if_neg (mt hears.mp hmem)]
        simp [Output.seenBy, hmem]

end Audience

/-! ## Requests for events, name by name -/

namespace Server

/-- Who listens to a name after a subscription to it. -/
def admitted (client : Client) (answers : DaemonAnswers) (known : Bool) (name : String) :
    Option (List Client) → Option (List Client)
  | some cl =>
    if answers.reqSubscribe name = false then some cl
    else some (if client ∈ cl then cl else cl ++ [client])
  | none =>
    if known = true ∧ answers.makeEvent name = true then
      some (if answers.reqSubscribe name = false then [] else [client])
    else none

/-- The daemon takes a client for a name. -/
def Admits (s : Server) (answers : DaemonAnswers) (name : String) : Prop :=
  answers.reqSubscribe name = true
    ∧ ((s.audience name).isSome ∨ (s.lookup name).isSome ∧ answers.makeEvent name = true)

instance (s : Server) (answers : DaemonAnswers) (name : String) :
    Decidable (s.Admits answers name) :=
  inferInstanceAs (Decidable (_ ∧ _))

/-- A value is reported to whomever. -/
theorem valueOf_audience (s : Server) (aud : Audience) (name : String) :
    ({ s with audience := aud } : Server).valueOf name = s.valueOf name := rfl

/-- **One named subscription, in closed form.** -/
theorem subscribeOne_eq (client : Client) (answers : DaemonAnswers)
    (t : Server × List (String × Json)) (name : String) :
    subscribeOne client answers t name =
      (({ t.1 with
          audience := Function.update t.1.audience name
            (admitted client answers (t.1.lookup name).isSome name (t.1.audience name)) },
        if t.1.Admits answers name then
          Json.objectAdd t.2 name ((t.1.valueOf name).getD .null)
        else t.2),
       if t.1.Admits answers name then 0 else 1) := by
  obtain ⟨s, apply⟩ := t
  have hadmits : s.Admits answers name ↔ answers.reqSubscribe name = true
      ∧ ((s.audience name).isSome ∨ (s.lookup name).isSome ∧ answers.makeEvent name = true) :=
    Iff.rfl
  unfold subscribeOne opened
  dsimp only
  cases hcl : s.audience name with
  | some cl =>
    rw [hcl] at hadmits
    have hself : Function.update s.audience name (some cl) = s.audience :=
      Function.update_eq_self_iff.mpr hcl.symm
    cases hreq : answers.reqSubscribe name with
    | false => simp [admitted, hreq, hself, hadmits]
    | true => simp [admitted, hreq, Audience.join, hcl, hadmits]
  | none =>
    rw [hcl] at hadmits
    have hself : Function.update s.audience name none = s.audience :=
      Function.update_eq_self_iff.mpr hcl.symm
    by_cases hmake : (s.lookup name).isSome = true ∧ answers.makeEvent name = true
    · cases hreq : answers.reqSubscribe name with
      | false => simp [admitted, hreq, hmake, hadmits]
      | true => simp [admitted, hreq, hmake, Audience.join, valueOf_audience, hadmits]
    · simp [admitted, hmake, hself, hadmits]

/-- Who listens to a name after a client was to leave it. -/
def dismissed (client : Client) (answers : DaemonAnswers) (name : String)
    (cl : Option (List Client)) : Option (List Client) :=
  if answers.reqUnsubscribe name = true then cl.map (fun l => l.filter (fun c => c ≠ client))
  else cl

/-- **Who hears after a subscription**: those who did, and the client if it was
taken. -/
theorem mem_admitted {client c : Client} {answers : DaemonAnswers} {known : Bool}
    {name : String} {cl : Option (List Client)} :
    c ∈ (admitted client answers known name cl).getD []
      ↔ c ∈ cl.getD [] ∨ c = client ∧ answers.reqSubscribe name = true
        ∧ (cl.isSome = true ∨ known = true ∧ answers.makeEvent name = true) := by
  cases cl with
  | some cl =>
    cases hreq : answers.reqSubscribe name with
    | false => simp [admitted, hreq]
    | true =>
      by_cases hmem : client ∈ cl
      · have himp : c = client → c ∈ cl := fun heq => heq ▸ hmem
        simpa [admitted, hreq, hmem] using himp
      · simp [admitted, hreq, hmem]
  | none =>
    by_cases hmake : known = true ∧ answers.makeEvent name = true
    · cases hreq : answers.reqSubscribe name with
      | false => simp [admitted, hreq, hmake]
      | true => simp [admitted, hreq, hmake]
    · simp [admitted, hmake]

theorem isSome_admitted {client : Client} {answers : DaemonAnswers} {known : Bool}
    {name : String} {cl : Option (List Client)} :
    (admitted client answers known name cl).isSome
      ↔ cl.isSome = true ∨ known = true ∧ answers.makeEvent name = true := by
  cases cl with
  | some cl =>
    cases hreq : answers.reqSubscribe name with
    | false => simp [admitted, hreq]
    | true => simp [admitted, hreq]
  | none =>
    by_cases hmake : known = true ∧ answers.makeEvent name = true
    · simp [admitted, hmake]
    · simp [admitted, hmake]

/-- **Who hears after a client was to leave.** -/
theorem mem_dismissed {client c : Client} {answers : DaemonAnswers} {name : String}
    {cl : Option (List Client)} :
    c ∈ (dismissed client answers name cl).getD []
      ↔ c ∈ cl.getD [] ∧ ¬(c = client ∧ answers.reqUnsubscribe name = true) := by
  unfold dismissed
  cases hreq : answers.reqUnsubscribe name with
  | false => simp
  | true => cases cl <;> simp

theorem isSome_dismissed (client : Client) (answers : DaemonAnswers) (name : String)
    (cl : Option (List Client)) :
    (dismissed client answers name cl).isSome = cl.isSome := by
  unfold dismissed
  split_ifs
  · exact Option.isSome_map
  · rfl

/-- **One name to leave, in closed form.** -/
theorem unsubscribeOne_fst (client : Client) (answers : DaemonAnswers) (s : Server)
    (name : String) :
    (unsubscribeOne client answers s name).1 =
      { s with
        audience := Function.update s.audience name
          (dismissed client answers name (s.audience name)) } := by
  unfold unsubscribeOne dismissed
  cases hreq : answers.reqUnsubscribe name with
  | false => simp
  | true =>
    cases hcl : s.audience name with
    | none =>
      have hself : Function.update s.audience name none = s.audience :=
        Function.update_eq_self_iff.mpr hcl.symm
      simp [hself]
    | some cl => simp [Audience.leave, hcl]

/-! ## What never changes -/

/-- **The same names in the same places**, of the same kind. -/
structure SameShape (s t : Server) : Prop where
  canids : t.canids = s.canids
  resolve : t.resolve = s.resolve
  supported : t.supported = s.supported
  kind : ∀ c, (t.channels c).kind = (s.channels c).kind
  cycle : ∀ c, (t.channels c).cycle = (s.channels c).cycle
  names : ∀ c, (t.channels c).signals.map Signal.name = (s.channels c).signals.map Signal.name

theorem SameShape.refl (s : Server) : s.SameShape s :=
  ⟨rfl, rfl, rfl, fun _ => rfl, fun _ => rfl, fun _ => rfl⟩

theorem SameShape.symm {s t : Server} (h : s.SameShape t) : t.SameShape s :=
  ⟨h.canids.symm, h.resolve.symm, h.supported.symm, fun c => (h.kind c).symm,
    fun c => (h.cycle c).symm, fun c => (h.names c).symm⟩

theorem SameShape.trans {s t u : Server} (h : s.SameShape t) (h' : t.SameShape u) :
    s.SameShape u :=
  ⟨h'.canids.trans h.canids, h'.resolve.trans h.resolve, h'.supported.trans h.supported,
    fun c => (h'.kind c).trans (h.kind c), fun c => (h'.cycle c).trans (h.cycle c),
    fun c => (h'.names c).trans (h.names c)⟩

theorem sameShape_audience (s : Server) (aud : Audience) :
    s.SameShape { s with audience := aud } :=
  ⟨rfl, rfl, rfl, fun _ => rfl, fun _ => rfl, fun _ => rfl⟩

/-- A channel with other values in its frame and signals. -/
theorem sameShape_setChannel (s : Server) (c : CanId) (f : CanFrame) {l : List Signal}
    (hl : l.map Signal.name = (s.channels c).signals.map Signal.name) :
    s.SameShape (s.setChannel c { s.channels c with frame := f, signals := l }) := by
  have hch : ∀ x, x ≠ c → (s.setChannel c { s.channels c with frame := f, signals := l }).channels x
      = s.channels x := fun x hx => Function.update_of_ne hx _ _
  have hself : (s.setChannel c { s.channels c with frame := f, signals := l }).channels c
      = { s.channels c with frame := f, signals := l } := Function.update_self ..
  refine ⟨rfl, rfl, rfl, fun x => ?_, fun x => ?_, fun x => ?_⟩
  · by_cases hx : x = c
    · rw [hx, hself]
    · rw [hch x hx]
  · by_cases hx : x = c
    · rw [hx, hself]
    · rw [hch x hx]
  · by_cases hx : x = c
    · rw [hx, hself]
      exact hl
    · rw [hch x hx]

theorem sameShape_receive (s : Server) (c : CanId) (f : CanFrame) (timestamp : Timeval) :
    s.SameShape (s.receive c f timestamp).1 := by
  refine (s.sameShape_setChannel c f ?_).trans (sameShape_audience _ _)
  rw [receiveSignals_fst, List.map_map]
  exact List.map_congr_left (fun g _ => g.name_receive _ _ _)

/-- **A frame keeps the shape.** -/
theorem sameShape_frame (s : Server) (f : CanFrame) (timestamp : Timeval) :
    s.SameShape (s.frame f timestamp).1 := by
  unfold frame
  dsimp only
  split_ifs
  · exact SameShape.refl s
  · exact s.sameShape_setChannel _ f rfl
  · exact s.sameShape_receive _ f timestamp
  · exact SameShape.refl s

/-- An element replaced by one that looks the same. -/
theorem map_set_of_eq {α β : Type} {f : α → β} {l : List α} {i : ℕ} {x y : α}
    (hx : l[i]? = some x) (hf : f y = f x) : (l.set i y).map f = l.map f := by
  obtain ⟨hi, rfl⟩ := List.getElem?_eq_some_iff.mp hx
  have hi' : i < (l.map f).length := by rwa [List.length_map]
  have hget : f l[i] = (l.map f)[i] := (List.getElem_map f).symm
  rw [List.map_set, hf, hget, List.set_getElem_self]

/-- A value goes into a signal of the channel. -/
theorem sameShape_assign {s : Server} {c : CanId} {i : ℕ} {g : Signal}
    (hg : (s.channels c).signals[i]? = some g) (v : BitVec 32) :
    s.SameShape (s.assign c i g v).1 := by
  unfold assign
  split_ifs
  · exact SameShape.refl s
  · exact s.sameShape_setChannel c _ (map_set_of_eq hg (g.name_setHead _))

/-- What a lookup finds. -/
theorem lookup_eq_some_iff {s : Server} {n : String} {c : CanId} {i : ℕ} {g : Signal} :
    s.lookup n = some (c, i, g)
      ↔ s.resolve n = some (c, i) ∧ (s.channels c).signals[i]? = some g := by
  unfold lookup
  cases hr : s.resolve n with
  | none => simp
  | some p =>
    obtain ⟨c', i'⟩ := p
    simp only [Option.bind_some, Option.map_eq_some_iff, Option.some_inj, Prod.mk.injEq]
    constructor
    · rintro ⟨g', hg', rfl, rfl, rfl⟩
      exact ⟨⟨rfl, rfl⟩, hg'⟩
    · rintro ⟨⟨rfl, rfl⟩, hg⟩
      exact ⟨g, hg, rfl, rfl, rfl⟩

/-- **A request to set keeps the shape.** -/
theorem sameShape_set (s : Server) (client : Client) (event value : Option String) :
    s.SameShape (s.set client event value).1 := by
  unfold set
  cases event with
  | none => exact SameShape.refl s
  | some n =>
    cases value with
    | none => exact SameShape.refl s
    | some text =>
      dsimp only
      cases hl : s.lookup n with
      | none => exact SameShape.refl s
      | some p => exact sameShape_assign (lookup_eq_some_iff.mp hl).2 _

/-- What a name resolves to is there in one if it is in the other. -/
theorem SameShape.isSome_lookup {s t : Server} (h : s.SameShape t) (n : String) :
    (t.lookup n).isSome = (s.lookup n).isSome := by
  unfold lookup
  rw [h.resolve]
  cases s.resolve n with
  | none => rfl
  | some p =>
    have hlen := congrArg List.length (h.names p.1)
    rw [List.length_map, List.length_map] at hlen
    rw [Option.bind_some, Option.bind_some, Option.isSome_map, Option.isSome_map, Bool.eq_iff_iff,
      isSome_getElem?, isSome_getElem?]
    show p.2 < _ ↔ p.2 < _
    rw [hlen]

end Server
