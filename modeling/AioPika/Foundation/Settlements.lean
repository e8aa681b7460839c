import AioPika.Foundation.Deliveries

/-! # What is settled

The tags of one epoch of a channel belong to one delivery each. A delivery is
settled once at most, because of a settlement that was sent for it or for a
later one of its epoch; the broker refuses a settlement exactly if an earlier one
covers its tag.
-/

namespace Deliveries

variable {κ α σ : Type} (client : Client σ)

def Handle.notes (h : Handle α σ) : List Note :=
  (client.notes h.state).map fun x => ⟨h.tag, x.1, x.2⟩

/-- What happens to one channel; the label is the delivery for which a settlement is sent. -/
inductive Channel.Moved (c : Channel κ α σ) : Option ℕ → Channel κ α σ → Prop
  | same : Moved c none c
  | deliver {queue : κ} {item : α} {redelivered : Bool} {x : σ} (hx : client.notes x = []) :
      Moved c none { c with
        lastTag := c.lastTag + 1
        owed := c.owed ++ [⟨c.lastTag + 1, queue, item⟩]
        handles := c.handles ++ [⟨c.epoch, c.lastTag + 1, item, redelivered, false, x⟩] }
  | handOut {item : α} {redelivered : Bool} {x : σ} (hx : client.notes x = []) :
      Moved c none { c with
        lastTag := c.lastTag + 1
        handles := c.handles ++ [⟨c.epoch, c.lastTag + 1, item, redelivered, true, x⟩] }
  | quiet {i : ℕ} {h : Handle α σ} {x : σ} (hi : c.handles[i]? = some h)
      (hx : client.notes x = client.notes h.state) :
      Moved c none { c with handles := c.handles.set i { h with state := x } }
  | send {i : ℕ} {h : Handle α σ} {x : σ} {multiple : Bool} {verb : Verb}
      (hi : c.handles[i]? = some h)
      (hx : client.notes x = client.notes h.state ++ [(multiple, verb)])
      (ha : h.auto = false) (he : h.epoch = c.epoch) :
      Moved c (some i) { c with
        handles := c.handles.set i { h with state := x }
        wire := c.wire ++ [⟨h.tag, multiple, verb⟩] }
  | settle {note : Note} {wire : List Note} (hw : c.wire = note :: wire) :
      Moved c none { c with
        owed := c.owed.filter fun o => ¬ note.Covers o.tag
        wire := wire }
  | next : Moved c none (c.next client)

/-- What is known of the tags of a channel. -/
structure Channel.Sound (c : Channel κ α σ) : Prop where
  epochs : ∀ h ∈ c.handles, h.epoch ≤ c.epoch
  tags : ∀ h ∈ c.handles, h.epoch = c.epoch → h.tag ≤ c.lastTag
  unique : ∀ (i j : ℕ) (h h' : Handle α σ), c.handles[i]? = some h → c.handles[j]? = some h' →
    h.epoch = h'.epoch → h.tag = h'.tag → i = j
  distinct : (c.owed.map Owed.tag).Nodup
  owed : ∀ o ∈ c.owed, ∃ h ∈ c.handles, h.epoch = c.epoch ∧ h.tag = o.tag ∧ h.item = o.item
  wire : ∀ n ∈ c.wire, ∃ h ∈ c.handles, h.epoch = c.epoch ∧ n ∈ h.notes client
  /-- A settlement is on its way, or has had its effect. -/
  asked : ∀ h ∈ c.handles, h.epoch = c.epoch → ∀ n ∈ h.notes client,
    n ∈ c.wire ∨ ∀ o ∈ c.owed, ¬ n.Covers o.tag
  /-- A delivery is kept until a settlement covers it. -/
  kept : ∀ h ∈ c.handles, h.epoch = c.epoch → h.auto = false → (∃ o ∈ c.owed, o.tag = h.tag) ∨
    ∃ h' ∈ c.handles, h'.epoch = c.epoch ∧ ∃ n ∈ h'.notes client, n.Covers h.tag

/-- The settlements that are on their way will find their tags. -/
structure Channel.Accepted (c : Channel κ α σ) : Prop where
  owed : ∀ n ∈ c.wire, ∃ o ∈ c.owed, o.tag = n.tag
  apart : c.wire.Pairwise fun n m => ¬ n.Covers m.tag

/-- No settlement that was sent in the epoch of the channel covers a tag. -/
def Channel.Untouched (c : Channel κ α σ) (tag : ℕ) : Prop :=
  ∀ h ∈ c.handles, h.epoch = c.epoch → ∀ n ∈ h.notes client, ¬ n.Covers tag

instance (c : Channel κ α σ) : DecidablePred (c.Untouched client) := fun tag =>
  inferInstanceAs (Decidable
    (∀ h ∈ c.handles, h.epoch = c.epoch → ∀ n ∈ h.notes client, ¬ n.Covers tag))

def Channel.Le (c c' : Channel κ α σ) : Prop :=
  ∀ h ∈ c.handles, ∃ h' ∈ c'.handles, h'.epoch = h.epoch ∧ h'.tag = h.tag ∧ h'.item = h.item ∧
    h'.auto = h.auto ∧ h.notes client ⊆ h'.notes client

/-- A settlement was sent for a delivery of the epoch, and covers it. -/
structure Settled.Asked (r : Settled α) (c : Channel κ α σ) : Prop where
  delivery : ∃ h ∈ c.handles, h.epoch = r.epoch ∧ h.tag = r.tag ∧ h.item = r.item
  note : ∃ h ∈ c.handles, h.epoch = r.epoch ∧ r.note ∈ h.notes client
  covers : r.note.Covers r.tag

def Settled.key (r : Settled α) : ℕ × ℕ × ℕ := (r.channel, r.epoch, r.tag)

structure Sound (s : Broker κ α σ) : Prop where
  channels : ∀ c ∈ s.channels, c.Sound client
  asked : ∀ r ∈ s.settled, ∃ c, s.channels[r.channel]? = some c ∧ r.Asked client c
  spent : ∀ r ∈ s.settled, ∀ c, s.channels[r.channel]? = some c → r.epoch = c.epoch →
    ∀ o ∈ c.owed, o.tag ≠ r.tag
  once : (s.settled.map Settled.key).Nodup

/-- No settlement was refused, and none that is on its way will be. -/
structure Clean (s : Broker κ α σ) : Prop where
  refused : s.refused = 0
  channels : ∀ c ∈ s.channels, c.Accepted

variable {client} {c c' : Channel κ α σ} {h h' : Handle α σ} {n : Note} {i : ℕ} {x : σ}
  {l : Option ℕ}

@[simp] theorem mem_notes : n ∈ h.notes client ↔
    n.tag = h.tag ∧ (n.multiple, n.verb) ∈ client.notes h.state := by
  obtain ⟨tag, multiple, verb⟩ := n
  simp only [Handle.notes, List.mem_map, Prod.exists, Note.mk.injEq]
  constructor
  · rintro ⟨a, b, hab, rfl, rfl, rfl⟩
    exact ⟨rfl, hab⟩
  · rintro ⟨rfl, hab⟩
    exact ⟨multiple, verb, hab, rfl, rfl, rfl⟩

theorem Note.covers_self : n.Covers n.tag := Or.inl rfl

theorem Note.Covers.le {tag : ℕ} (hc : n.Covers tag) : tag ≤ n.tag := by
  rcases hc with rfl | ⟨-, hle⟩
  · exact Nat.le_refl _
  · exact hle

theorem Channel.Le.refl : c.Le client c :=
  fun h hh => ⟨h, hh, rfl, rfl, rfl, rfl, List.Subset.refl _⟩

theorem Channel.Le.append {hs : List (Handle α σ)} (hc : c'.handles = c.handles ++ hs) :
    c.Le client c' := by
  intro h hh
  refine ⟨h, ?_, rfl, rfl, rfl, rfl, List.Subset.refl _⟩
  rw [hc]
  exact List.mem_append_left _ hh

theorem Channel.Le.set {sent : List (Bool × Verb)} (hi : c.handles[i]? = some h)
    (hx : client.notes x = client.notes h.state ++ sent)
    (hc : c'.handles = c.handles.set i { h with state := x }) : c.Le client c' := by
  intro h' hh'
  obtain ⟨j, hj⟩ := List.getElem?_of_mem hh'
  by_cases hij : i = j
  · subst hij
    obtain rfl := Option.some.inj (hi.symm.trans hj)
    refine ⟨{ h with state := x }, ?_, rfl, rfl, rfl, rfl, fun n hn => ?_⟩
    · rw [hc]
      exact List.mem_of_getElem? (List.getElem?_set_self (List.getElem?_eq_some_iff.mp hi).1)
    · simp only [mem_notes, hx, List.mem_append] at hn ⊢
      exact ⟨hn.1, Or.inl hn.2⟩
  · refine ⟨h', ?_, rfl, rfl, rfl, rfl, List.Subset.refl _⟩
    rw [hc]
    exact List.mem_of_getElem? ((List.getElem?_set_ne hij).trans hj)

theorem Channel.Le.next : c.Le client (c.next client) := by
  intro h hh
  refine ⟨{ h with state := client.lost h.state }, List.mem_map_of_mem hh, rfl, rfl, rfl, rfl, ?_⟩
  intro n hn
  simpa [client.notes_lost] using hn

theorem Channel.Moved.le (hm : c.Moved client l c') : c.Le client c' := by
  cases hm with
  | deliver | handOut => exact .append rfl
  | quiet hi hx => exact .set hi (hx.trans (List.append_nil _).symm) rfl
  | send hi hx => exact .set hi hx rfl
  | next => exact .next
  | _ => exact .refl

namespace Channel.Sound

theorem tag_lt (hc : c.Sound client) {o : Owed κ α} (ho : o ∈ c.owed) : o.tag < c.lastTag + 1 := by
  obtain ⟨h, hh, he, ht, -⟩ := hc.owed o ho
  have hle := hc.tags h hh he
  omega

theorem add (hc : c.Sound client) (hx : client.notes x = []) {item : α} {redelivered auto : Bool}
    {owed : List (Owed κ α)} (hn : (owed.map Owed.tag).Nodup)
    (ho : ∀ o ∈ owed, o ∈ c.owed ∨ o.tag = c.lastTag + 1 ∧ o.item = item)
    (hsub : c.owed ⊆ owed) (ha : auto = false → ∃ o ∈ owed, o.tag = c.lastTag + 1) :
    Channel.Sound client { c with
      lastTag := c.lastTag + 1
      owed := owed
      handles := c.handles ++ [⟨c.epoch, c.lastTag + 1, item, redelivered, auto, x⟩] } where
  epochs h hh := by
    rcases List.mem_append.mp hh with hh | hh
    · exact hc.epochs h hh
    · obtain rfl := List.mem_singleton.mp hh
      exact Nat.le_refl _
  tags h hh he := by
    rcases List.mem_append.mp hh with hh | hh
    · exact Nat.le_succ_of_le (hc.tags h hh he)
    · obtain rfl := List.mem_singleton.mp hh
      exact Nat.le_refl _
  unique i j h h' hi hj he ht := by
    rcases Members.of_append hi with hi | ⟨rfl, rfl⟩
    · rcases Members.of_append hj with hj | ⟨-, rfl⟩
      · exact hc.unique i j h h' hi hj he ht
      · have hle := hc.tags h (List.mem_of_getElem? hi) he
        simp only at ht
        omega
    · rcases Members.of_append hj with hj | ⟨hj, -⟩
      · have hle := hc.tags h' (List.mem_of_getElem? hj) he.symm
        simp only at ht
        omega
      · exact hj.symm
  distinct := hn
  owed o hmem := by
    rcases ho o hmem with hmem | ⟨ht, hitem⟩
    · obtain ⟨h, hh, hrest⟩ := hc.owed o hmem
      exact ⟨h, List.mem_append_left _ hh, hrest⟩
    · exact ⟨_, List.mem_append_right _ (List.mem_singleton_self _), rfl, ht.symm, hitem.symm⟩
  wire n hn := by
    obtain ⟨h, hh, hrest⟩ := hc.wire n hn
    exact ⟨h, List.mem_append_left _ hh, hrest⟩
  asked h hh he n hn := by
    rcases List.mem_append.mp hh with hh | hh
    · refine (hc.asked h hh he n hn).imp_right fun hcov o hmem => ?_
      rcases ho o hmem with hmem | ⟨ht, -⟩
      · exact hcov o hmem
      · intro hle
        have hle := hle.le
        have htag := hc.tags h hh he
        have hnote := (mem_notes.mp hn).1
        omega
    · obtain rfl := List.mem_singleton.mp hh
      simp [hx] at hn
  kept h hh he hauto := by
    rcases List.mem_append.mp hh with hh | hh
    · rcases hc.kept h hh he hauto with ⟨o, hmem, ht⟩ | ⟨h', hh', hrest⟩
      · exact Or.inl ⟨o, hsub hmem, ht⟩
      · exact Or.inr ⟨h', List.mem_append_left _ hh', hrest⟩
    · obtain rfl := List.mem_singleton.mp hh
      exact Or.inl (ha hauto)

theorem update (hc : c.Sound client) {sent : List (Bool × Verb)} (hi : c.handles[i]? = some h)
    (hx : client.notes x = client.notes h.state ++ sent) (he : sent ≠ [] → h.epoch = c.epoch) :
    Channel.Sound client { c with
      handles := c.handles.set i { h with state := x }
      wire := c.wire ++ sent.map fun y => ⟨h.tag, y.1, y.2⟩ } := by
  have hle : c.Le client { c with
      handles := c.handles.set i { h with state := x }
      wire := c.wire ++ sent.map fun y => ⟨h.tag, y.1, y.2⟩ } := .set hi hx rfl
  have hmem : h ∈ c.handles := List.mem_of_getElem? hi
  have hself : { h with state := x } ∈ c.handles.set i { h with state := x } :=
    List.mem_of_getElem? (List.getElem?_set_self (List.getElem?_eq_some_iff.mp hi).1)
  have hget : ∀ {j : ℕ} {h' : Handle α σ}, (c.handles.set i { h with state := x })[j]? = some h' →
      ∃ h'', c.handles[j]? = some h'' ∧ h''.epoch = h'.epoch ∧ h''.tag = h'.tag := by
    intro j h' hj
    rcases Members.of_set hj with ⟨rfl, rfl⟩ | ⟨-, hj⟩
    · exact ⟨h, hi, rfl, rfl⟩
    · exact ⟨h', hj, rfl, rfl⟩
  constructor
  · intro h' hh'
    rcases List.mem_or_eq_of_mem_set hh' with hh' | rfl
    · exact hc.epochs h' hh'
    · exact hc.epochs h hmem
  · intro h' hh' he'
    rcases List.mem_or_eq_of_mem_set hh' with hh' | rfl
    · exact hc.tags h' hh' he'
    · exact hc.tags h hmem he'
  · intro j k a b hj hk he' ht
    obtain ⟨a', ha, hae, hat⟩ := hget hj
    obtain ⟨b', hb, hbe, hbt⟩ := hget hk
    exact hc.unique j k a' b' ha hb (by rw [hae, hbe, he']) (by rw [hat, hbt, ht])
  · exact hc.distinct
  · intro o ho
    obtain ⟨h', hh', he', ht, hitem⟩ := hc.owed o ho
    obtain ⟨h'', hh'', he'', ht', hitem', -⟩ := hle h' hh'
    exact ⟨h'', hh'', he''.trans he', ht'.trans ht, hitem'.trans hitem⟩
  · intro n hn
    rcases List.mem_append.mp hn with hn | hn
    · obtain ⟨h', hh', he', hn⟩ := hc.wire n hn
      obtain ⟨h'', hh'', he'', -, -, -, hsub⟩ := hle h' hh'
      exact ⟨h'', hh'', he''.trans he', hsub hn⟩
    · obtain ⟨y, hy, rfl⟩ := List.mem_map.mp hn
      refine ⟨_, hself, he (List.ne_nil_of_mem hy), ?_⟩
      simp [hx, hy]
  · intro h' hh' he' n hn
    rcases List.mem_or_eq_of_mem_set hh' with hh' | rfl
    · exact (hc.asked h' hh' he' n hn).imp_left (List.mem_append_left _)
    · obtain ⟨ht, hn⟩ := mem_notes.mp hn
      rw [hx] at hn
      rcases List.mem_append.mp hn with hn | hn
      · have hold : n ∈ h.notes client := mem_notes.mpr ⟨ht, hn⟩
        exact (hc.asked h hmem he' n hold).imp_left (List.mem_append_left _)
      · refine Or.inl (List.mem_append_right _ (List.mem_map.mpr ⟨_, hn, ?_⟩))
        obtain ⟨tag, multiple, verb⟩ := n
        exact congrArg (Note.mk · multiple verb) ht.symm
  · intro h' hh' he' ha
    have hkept : (∃ o ∈ c.owed, o.tag = h'.tag) ∨ ∃ h'' ∈ c.handles, h''.epoch = c.epoch ∧
        ∃ n ∈ h''.notes client, n.Covers h'.tag := by
      rcases List.mem_or_eq_of_mem_set hh' with hh' | rfl
      · exact hc.kept h' hh' he' ha
      · exact hc.kept h hmem he' ha
    refine hkept.imp_right ?_
    rintro ⟨a, ha, hae, n, hn, hcov⟩
    obtain ⟨b, hb, hbe, -, -, -, hsub⟩ := hle a ha
    exact ⟨b, hb, hbe.trans hae, n, hsub hn, hcov⟩

theorem settle (hc : c.Sound client) {note : Note} {wire : List Note}
    (hw : c.wire = note :: wire) :
    Channel.Sound client { c with
      owed := c.owed.filter fun o => ¬ note.Covers o.tag
      wire := wire } where
  epochs := hc.epochs
  tags := hc.tags
  unique := hc.unique
  distinct := hc.distinct.sublist (List.filter_sublist.map _)
  owed o ho := hc.owed o (List.mem_of_mem_filter ho)
  wire n hn := hc.wire n (by rw [hw]; exact List.mem_cons_of_mem _ hn)
  asked h hh he n hn := by
    rcases hc.asked h hh he n hn with hmem | hcov
    · rw [hw] at hmem
      rcases List.mem_cons.mp hmem with rfl | hmem
      · exact Or.inr fun o ho => by simpa using (List.mem_filter.mp ho).2
      · exact Or.inl hmem
    · exact Or.inr fun o ho => hcov o (List.mem_of_mem_filter ho)
  kept h hh he ha := by
    rcases hc.kept h hh he ha with ⟨o, ho, ht⟩ | hcov
    · by_cases hnote : note.Covers o.tag
      · obtain ⟨h', hh', he', hn⟩ := hc.wire note (by rw [hw]; exact List.mem_cons_self)
        exact Or.inr ⟨h', hh', he', note, hn, ht ▸ hnote⟩
      · exact Or.inl ⟨o, List.mem_filter.mpr ⟨ho, by simpa using hnote⟩, ht⟩
    · exact Or.inr hcov

theorem next (hc : c.Sound client) : (c.next client).Sound client := by
  have hold : ∀ h ∈ (c.next client).handles, h.epoch ≤ c.epoch := by
    intro h hh
    obtain ⟨h', hh', rfl⟩ := List.mem_map.mp hh
    exact hc.epochs h' hh'
  have hnone : ∀ h ∈ (c.next client).handles, h.epoch ≠ c.epoch + 1 := by
    intro h hh he
    have hle := hold h hh
    omega
  constructor
  · exact fun h hh => Nat.le_succ_of_le (hold h hh)
  · exact fun h hh he => absurd he (hnone h hh)
  · intro i j h h' hi hj he ht
    simp only [Channel.next, List.getElem?_map, Option.map_eq_some_iff] at hi hj
    obtain ⟨a, ha, rfl⟩ := hi
    obtain ⟨b, hb, rfl⟩ := hj
    exact hc.unique i j a b ha hb he ht
  · exact List.nodup_nil
  · exact fun o ho => absurd ho List.not_mem_nil
  · exact fun n hn => absurd hn List.not_mem_nil
  · exact fun h hh he => absurd he (hnone h hh)
  · exact fun h hh he => absurd he (hnone h hh)

theorem moved (hc : c.Sound client) (hm : c.Moved client l c') : c'.Sound client := by
  cases hm with
  | same => exact hc
  | @deliver queue item redelivered x hx =>
    refine hc.add hx ?_ ?_ (List.subset_append_left _ _) ?_
    · rw [List.map_append, List.nodup_append]
      refine ⟨hc.distinct, List.nodup_singleton _, ?_⟩
      simp only [List.mem_map, List.map_cons, List.map_nil, List.mem_singleton]
      rintro _ ⟨o, ho, rfl⟩ _ rfl
      have hlt := hc.tag_lt ho
      omega
    · intro o ho
      rcases List.mem_append.mp ho with ho | ho
      · exact Or.inl ho
      · obtain rfl := List.mem_singleton.mp ho
        exact Or.inr ⟨rfl, rfl⟩
    · exact fun _ => ⟨_, List.mem_append_right _ (List.mem_singleton_self _), rfl⟩
  | handOut hx =>
    exact hc.add hx hc.distinct (fun o ho => Or.inl ho) (List.Subset.refl _) nofun
  | quiet hi hx =>
    have hsound := hc.update hi (hx.trans (List.append_nil _).symm) (fun hne => absurd rfl hne)
    simpa using hsound
  | send hi hx ha he => exact hc.update hi hx fun _ => he
  | settle hw => exact hc.settle hw
  | next => exact hc.next

end Channel.Sound

/-- Settlements on their way stay acceptable, if the one that is sent is for a tag that no
settlement of the epoch covers. -/
theorem Channel.Accepted.moved (ha : c.Accepted) (hc : c.Sound client)
    (hm : c.Moved client l c') :
    c'.Accepted ↔ ∀ i ∈ l, ∀ h ∈ c.handles[i]?, c.Untouched client h.tag := by
  cases hm with
  | same => simp [ha]
  | @deliver queue item =>
    refine iff_of_true ⟨fun n hn => ?_, ha.apart⟩ (by simp)
    obtain ⟨o, ho, ht⟩ := ha.owed n hn
    exact ⟨o, List.mem_append_left _ ho, ht⟩
  | handOut => exact iff_of_true ⟨ha.owed, ha.apart⟩ (by simp)
  | quiet => exact iff_of_true ⟨ha.owed, ha.apart⟩ (by simp)
  | @send i h x multiple verb hi hx hauto he =>
    have hmem : h ∈ c.handles := List.mem_of_getElem? hi
    simp only [Option.mem_def, Option.some.injEq, forall_eq', hi]
    constructor
    · intro ha' h' hh' he' n hn hcov
      obtain ⟨o, ho, ht⟩ := ha'.owed ⟨h.tag, multiple, verb⟩ (by simp)
      have hapart := (List.pairwise_append.mp ha'.apart).2.2
      rcases hc.asked h' hh' he' n hn with hw | hnot
      · exact hapart n hw _ (List.mem_singleton_self _) hcov
      · refine hnot o ho ?_
        rw [ht]
        exact hcov
    · intro hu
      constructor
      · intro n hn
        rcases List.mem_append.mp hn with hn | hn
        · exact ha.owed n hn
        · obtain rfl := List.mem_singleton.mp hn
          rcases hc.kept h hmem he hauto with howed | ⟨h', hh', he', n, hn, hcov⟩
          · exact howed
          · exact absurd hcov (hu h' hh' he' n hn)
      · simp only [List.pairwise_append, List.pairwise_singleton, List.mem_singleton]
        refine ⟨ha.apart, trivial, ?_⟩
        rintro n hn _ rfl
        obtain ⟨h', hh', he', hn'⟩ := hc.wire n hn
        exact hu h' hh' he' n hn'
  | @settle note wire hw =>
    refine iff_of_true ⟨fun n hn => ?_, ?_⟩ (by simp)
    · obtain ⟨o, ho, ht⟩ := ha.owed n (by rw [hw]; exact List.mem_cons_of_mem _ hn)
      have hapart := ha.apart
      rw [hw] at hapart
      have hnot := (List.pairwise_cons.mp hapart).1 n hn
      rw [← ht] at hnot
      exact ⟨o, List.mem_filter.mpr ⟨ho, by simpa using hnot⟩, ht⟩
    · have hapart := ha.apart
      rw [hw] at hapart
      exact (List.pairwise_cons.mp hapart).2
  | next => exact iff_of_true ⟨nofun, List.Pairwise.nil⟩ (by simp)

variable [DecidableEq κ] {s t : Broker κ α σ} {m : Option (ℕ × ℕ)} {p : ℕ}

theorem giveBack_frame {γ : Type} (f : Broker κ α σ → γ)
    (hf : ∀ s queues discarded, f { s with queues := queues, discarded := discarded } = f s)
    (os : List (Owed κ α)) (s : Broker κ α σ) : f (os.foldl Broker.giveBack s) = f s := by
  induction os generalizing s with
  | nil => rfl
  | cons o os ih =>
    rw [List.foldl_cons, ih]
    unfold Broker.giveBack
    split
    · exact hf s _ s.discarded
    · exact hf s s.queues _

@[simp] theorem giveBack_channels (os : List (Owed κ α)) :
    (os.foldl Broker.giveBack s).channels = s.channels :=
  giveBack_frame Broker.channels (fun _ _ _ => rfl) os s

@[simp] theorem giveBack_settled (os : List (Owed κ α)) :
    (os.foldl Broker.giveBack s).settled = s.settled :=
  giveBack_frame Broker.settled (fun _ _ _ => rfl) os s

@[simp] theorem giveBack_refused (os : List (Owed κ α)) :
    (os.foldl Broker.giveBack s).refused = s.refused :=
  giveBack_frame Broker.refused (fun _ _ _ => rfl) os s

theorem drop_channels : (s.drop client p c).channels = s.channels.set p (c.next client) :=
  giveBack_channels _

theorem settle_channels {note : Note} {wire : List Note} :
    (s.settle p c note wire).channels = s.channels.set p { c with
      owed := c.owed.filter fun o => ¬ note.Covers o.tag
      wire := wire } := by
  unfold Broker.settle
  split
  · exact giveBack_channels _
  · rfl

theorem settle_settled {note : Note} {wire : List Note} :
    (s.settle p c note wire).settled = s.settled ++ (c.owed.filter fun o =>
      note.Covers o.tag).map fun o => ⟨p, c.epoch, o.tag, o.item, note⟩ := by
  unfold Broker.settle
  split
  · exact giveBack_settled _
  · rfl

theorem settle_refused {note : Note} {wire : List Note} :
    (s.settle p c note wire).refused = s.refused := by
  unfold Broker.settle
  split
  · exact giveBack_refused _
  · rfl

omit [DecidableEq κ] in
theorem moved_of_set {l : Option ℕ} (hp : s.channels[p]? = some c)
    (ht : t.channels = s.channels.set p c') (hm : c.Moved client l c')
    (hl : ∀ q i, m = some (q, i) ↔ q = p ∧ l = some i) {q : ℕ} {y : Channel κ α σ}
    (hy : t.channels[q]? = some y) :
    ∃ x l', s.channels[q]? = some x ∧ x.Moved client l' y ∧
      ∀ i, l' = some i ↔ m = some (q, i) := by
  rw [ht] at hy
  rcases Members.of_set hy with ⟨rfl, rfl⟩ | ⟨hne, hy⟩
  · exact ⟨c, l, hp, hm, fun i => by simp [hl]⟩
  · refine ⟨y, none, hy, .same, fun i => ?_⟩
    simp only [reduceCtorEq, false_iff]
    intro he
    exact hne ((hl q i).mp he).1

/-- Every channel moves, and sends what is sent for its deliveries. -/
theorem channels_move (hm : Move client s m t) {q : ℕ} {y : Channel κ α σ}
    (hy : t.channels[q]? = some y) :
    ∃ x l, s.channels[q]? = some x ∧ x.Moved client l y ∧ ∀ i, l = some i ↔ m = some (q, i) := by
  cases hm with
  | deliver hp hq hm hx => exact moved_of_set hp (by rfl) (.deliver hx) (by simp) hy
  | handOut hp hq hm hx => exact moved_of_set hp (by rfl) (.handOut hx) (by simp) hy
  | @quiet p i c h x hp hi hx =>
    have hmoved : c.Moved client none { c with
        handles := c.handles.set i { h with state := x }, wire := c.wire ++ [] } := by
      simpa using Channel.Moved.quiet hi hx
    exact moved_of_set hp (by rfl) hmoved (by simp) hy
  | @send p i c h x multiple verb hp hi hx ha he =>
    refine moved_of_set hp (by rfl) (.send hi hx ha he) (fun q j => ?_) hy
    simp [eq_comm]
  | settle hp hw => exact moved_of_set hp settle_channels (.settle hw) (by simp) hy
  | refuse hp => exact moved_of_set hp drop_channels .next (by simp) hy
  | lose hp => exact moved_of_set hp drop_channels .next (by simp) hy
  | _ => exact ⟨y, none, hy, .same, by simp⟩

theorem channels_length (hm : Move client s m t) : t.channels.length = s.channels.length := by
  cases hm with
  | settle => rw [settle_channels, List.length_set]
  | refuse | lose => rw [drop_channels, List.length_set]
  | deliver | handOut | quiet | send => exact List.length_set
  | _ => rfl

theorem channels_le (hm : Move client s m t) {q : ℕ} (hq : s.channels[q]? = some c) :
    ∃ c', t.channels[q]? = some c' ∧ c.Le client c' := by
  have hlt : q < t.channels.length := by
    rw [channels_length hm]
    exact (List.getElem?_eq_some_iff.mp hq).1
  obtain ⟨x, l, hx, hmoved, -⟩ := channels_move hm (List.getElem?_eq_getElem hlt)
  obtain rfl := Option.some.inj (hq.symm.trans hx)
  exact ⟨_, List.getElem?_eq_getElem hlt, hmoved.le⟩

omit [DecidableEq κ] in
theorem Settled.Asked.mono {r : Settled α} (h : r.Asked client c) (hle : c.Le client c') :
    r.Asked client c' where
  delivery := by
    obtain ⟨h, hh, he, ht, hi⟩ := h.delivery
    obtain ⟨h', hh', he', ht', hi', -⟩ := hle h hh
    exact ⟨h', hh', he'.trans he, ht'.trans ht, hi'.trans hi⟩
  note := by
    obtain ⟨h, hh, he, hn⟩ := h.note
    obtain ⟨h', hh', he', -, -, -, hsub⟩ := hle h hh
    exact ⟨h', hh', he'.trans he, hsub hn⟩
  covers := h.covers

/-- What a step settles. -/
theorem settled_move (hm : Move client s m t) : t.settled = s.settled ∨
    ∃ p c note wire, s.channels[p]? = some c ∧ c.wire = note :: wire ∧
      t = s.settle p c note wire := by
  cases hm with
  | settle hp hw => exact Or.inr ⟨_, _, _, _, hp, hw, rfl⟩
  | refuse | lose => exact Or.inl (giveBack_settled _)
  | _ => exact Or.inl rfl

omit [DecidableEq κ] in
theorem Channel.Moved.owed {l : Option ℕ} (hm : c.Moved client l c') {o : Owed κ α}
    (ho : o ∈ c'.owed) : c'.epoch = c.epoch ∧ (o ∈ c.owed ∨ o.tag = c.lastTag + 1) := by
  cases hm with
  | deliver =>
    rcases List.mem_append.mp ho with ho | ho
    · exact ⟨rfl, Or.inl ho⟩
    · obtain rfl := List.mem_singleton.mp ho
      exact ⟨rfl, Or.inr rfl⟩
  | settle => exact ⟨rfl, Or.inl (List.mem_of_mem_filter ho)⟩
  | next => exact absurd ho List.not_mem_nil
  | _ => exact ⟨rfl, Or.inl ho⟩

theorem Sound.move (hs : Sound client s) (hm : Move client s m t) : Sound client t := by
  have hsound : ∀ {q : ℕ} {c : Channel κ α σ}, s.channels[q]? = some c → c.Sound client :=
    fun hq => hs.channels _ (List.mem_of_getElem? hq)
  have hasked : ∀ r ∈ s.settled, ∃ c, t.channels[r.channel]? = some c ∧ r.Asked client c := by
    intro r hr
    obtain ⟨c, hc, ha⟩ := hs.asked r hr
    obtain ⟨c', hc', hle⟩ := channels_le hm hc
    exact ⟨c', hc', ha.mono hle⟩
  have hspent : ∀ r ∈ s.settled, ∀ c, t.channels[r.channel]? = some c → r.epoch = c.epoch →
      ∀ o ∈ c.owed, o.tag ≠ r.tag := by
    intro r hr c' hc' he o ho
    obtain ⟨c, l, hc, hmoved, -⟩ := channels_move hm hc'
    obtain ⟨hepoch, ho⟩ := hmoved.owed ho
    rcases ho with ho | ht
    · exact hs.spent r hr c hc (he.trans hepoch) o ho
    · obtain ⟨y, hy, ha⟩ := hs.asked r hr
      obtain rfl := Option.some.inj (hc.symm.trans hy)
      obtain ⟨h, hh, hhe, hht, -⟩ := ha.delivery
      have hle := (hsound hc).tags h hh (hhe.trans (he.trans hepoch))
      omega
  have hchannels : ∀ c ∈ t.channels, c.Sound client := by
    intro c' hc'
    obtain ⟨q, hq⟩ := List.getElem?_of_mem hc'
    obtain ⟨c, l, hc, hmoved, -⟩ := channels_move hm hq
    exact (hsound hc).moved hmoved
  rcases settled_move hm with he | ⟨p, c, note, wire, hp, hw, rfl⟩
  · exact ⟨hchannels, he ▸ hasked, he ▸ hspent, he ▸ hs.once⟩
  · have hc := hsound hp
    have hnew : ∀ r ∈ ((c.owed.filter fun o => note.Covers o.tag).map fun o =>
        (⟨p, c.epoch, o.tag, o.item, note⟩ : Settled α)), r.channel = p ∧ r.epoch = c.epoch ∧
        r.note = note ∧ ∃ o ∈ c.owed, note.Covers o.tag ∧ r.tag = o.tag ∧ r.item = o.item := by
      intro r hr
      obtain ⟨o, ho, rfl⟩ := List.mem_map.mp hr
      obtain ⟨ho, hcov⟩ := List.mem_filter.mp ho
      exact ⟨rfl, rfl, rfl, o, ho, by simpa using hcov, rfl, rfl⟩
    have hset : (s.settle p c note wire).channels[p]? = some { c with
        owed := c.owed.filter fun o => ¬ note.Covers o.tag
        wire := wire } := by
      rw [settle_channels]
      exact List.getElem?_set_self (List.getElem?_eq_some_iff.mp hp).1
    constructor
    · exact hchannels
    · intro r hr
      rw [settle_settled] at hr
      rcases List.mem_append.mp hr with hr | hr
      · exact hasked r hr
      · obtain ⟨hrp, hre, hrn, o, ho, hcov, hrt, hri⟩ := hnew r hr
        rw [hrp]
        refine ⟨_, hset, ?_, ?_, ?_⟩
        · obtain ⟨h, hh, he, ht, hi⟩ := hc.owed o ho
          exact ⟨h, hh, he.trans hre.symm, ht.trans hrt.symm, hi.trans hri.symm⟩
        · obtain ⟨h, hh, he, hn⟩ := hc.wire note (by rw [hw]; exact List.mem_cons_self)
          exact ⟨h, hh, he.trans hre.symm, hrn ▸ hn⟩
        · rw [hrn, hrt]
          exact hcov
    · intro r hr y hy he o ho
      rw [settle_settled] at hr
      rcases List.mem_append.mp hr with hr | hr
      · exact hspent r hr y hy he o ho
      · obtain ⟨hrp, -, -, o', ho', hcov, hrt, -⟩ := hnew r hr
        rw [hrp] at hy
        obtain rfl := Option.some.inj (hset.symm.trans hy)
        have hnot : ¬ note.Covers o.tag := by simpa using (List.mem_filter.mp ho).2
        intro ht
        rw [ht, hrt] at hnot
        exact hnot hcov
    · rw [settle_settled, List.map_append, List.nodup_append]
      refine ⟨hs.once, ?_, ?_⟩
      · rw [List.map_map]
        have hkeys : ((c.owed.filter fun o => note.Covers o.tag).map Owed.tag).Nodup :=
          hc.distinct.sublist (List.filter_sublist.map _)
        refine List.Nodup.of_map (fun key : ℕ × ℕ × ℕ => key.2.2) ?_
        rw [List.map_map]
        exact hkeys
      · simp only [List.mem_map]
        rintro _ ⟨r, hr, rfl⟩ _ ⟨r', hr', rfl⟩ heq
        obtain ⟨hrp, hre, -, o, ho, -, hrt, -⟩ := hnew r' (List.mem_map.mpr hr')
        obtain ⟨hchannel, hepoch, htag⟩ : r.channel = r'.channel ∧ r.epoch = r'.epoch ∧
            r.tag = r'.tag := by simpa [Settled.key] using heq
        refine hs.spent r hr c ?_ ?_ o ho ?_
        · rw [hchannel, hrp]
          exact hp
        · rw [hepoch, hre]
        · rw [htag, hrt]

/-- A step leaves the channels open exactly if what it sends is for a tag that no settlement of the
epoch covers. -/
theorem Clean.move (hc : Clean s) (hs : Sound client s) (hm : Move client s m t) :
    Clean t ↔ ∀ p i, m = some (p, i) → ∀ c ∈ s.channels[p]?, ∀ h ∈ c.handles[i]?,
      c.Untouched client h.tag := by
  have hrefused : t.refused = s.refused := by
    cases hm with
    | refuse hp hw ho =>
      obtain ⟨o, hmem, ht⟩ := (hc.channels _ (List.mem_of_getElem? hp)).owed _
        (by rw [hw]; exact List.mem_cons_self)
      exact absurd ht (ho o hmem)
    | settle => exact settle_refused
    | lose => exact giveBack_refused _
    | _ => rfl
  have hat : ∀ {q : ℕ} {y : Channel κ α σ}, t.channels[q]? = some y → ∃ x,
      s.channels[q]? = some x ∧ (y.Accepted ↔ ∀ i, m = some (q, i) →
        ∀ h ∈ x.handles[i]?, x.Untouched client h.tag) := by
    intro q y hy
    obtain ⟨x, l, hx, hmoved, hl⟩ := channels_move hm hy
    have hmem := List.mem_of_getElem? hx
    refine ⟨x, hx, ((hc.channels x hmem).moved (hs.channels x hmem) hmoved).trans ?_⟩
    simp [hl]
  constructor
  · intro ht p i hpi c hp h hi
    have hlt : p < t.channels.length := by
      rw [channels_length hm]
      exact (List.getElem?_eq_some_iff.mp hp).1
    obtain ⟨x, hx, hiff⟩ := hat (List.getElem?_eq_getElem hlt)
    obtain rfl := Option.some.inj (hx.symm.trans hp)
    exact hiff.mp (ht.channels _ (List.getElem_mem hlt)) i hpi h hi
  · intro hu
    refine ⟨hrefused.trans hc.refused, fun y hy => ?_⟩
    obtain ⟨q, hq⟩ := List.getElem?_of_mem hy
    obtain ⟨x, hx, hiff⟩ := hat hq
    exact hiff.mpr fun i hpi h hi => hu q i hpi x hx h hi

omit [DecidableEq κ] in
theorem Channel.Sound.untouched (hc : c.Sound client) (hi : c.handles[i]? = some h)
    (he : h.epoch = c.epoch) (hnone : client.notes h.state = [])
    (hsingle : ∀ h ∈ c.handles, h.epoch = c.epoch → ∀ x ∈ client.notes h.state, x.1 = false) :
    c.Untouched client h.tag := by
  intro h' hh' he' n hn hcov
  obtain ⟨htag, hnote⟩ := mem_notes.mp hn
  have hsame : h.tag = h'.tag := by
    rcases hcov with hcov | ⟨hmul, -⟩
    · exact hcov.trans htag
    · have hone := hsingle h' hh' he' _ hnote
      rw [hmul] at hone
      cases hone
  obtain ⟨j, hj⟩ := List.getElem?_of_mem hh'
  obtain rfl := hc.unique i j h h' hi hj (he.trans he'.symm) hsame
  obtain rfl := Option.some.inj (hi.symm.trans hj)
  rw [hnone] at hnote
  cases hnote

omit [DecidableEq κ] in
/-- If settlements are about one tag each, what is settled was sent for its own delivery. -/
theorem Sound.own (hs : Sound client s) {r : Settled α} (hr : r ∈ s.settled)
    (hsingle : ∀ c, s.channels[r.channel]? = some c → ∀ h ∈ c.handles, h.epoch = r.epoch →
      ∀ x ∈ client.notes h.state, x.1 = false) :
    ∃ c, s.channels[r.channel]? = some c ∧ ∃ h ∈ c.handles, h.epoch = r.epoch ∧ h.tag = r.tag ∧
      h.item = r.item ∧ (r.note.multiple, r.note.verb) ∈ client.notes h.state := by
  obtain ⟨c, hc, hasked⟩ := hs.asked r hr
  obtain ⟨h, hh, he, ht, hi⟩ := hasked.delivery
  obtain ⟨h', hh', he', hn⟩ := hasked.note
  obtain ⟨htag, hnote⟩ := mem_notes.mp hn
  have hone := hsingle c hc h' hh' he' _ hnote
  have hsame : h'.tag = h.tag := by
    rcases hasked.covers with hcov | ⟨hmul, -⟩
    · omega
    · rw [hmul] at hone
      cases hone
  obtain ⟨i, hi'⟩ := List.getElem?_of_mem hh
  obtain ⟨j, hj'⟩ := List.getElem?_of_mem hh'
  obtain rfl := (hs.channels c (List.mem_of_getElem? hc)).unique j i h' h hj' hi'
    (he'.trans he.symm) hsame
  obtain rfl := Option.some.inj (hi'.symm.trans hj')
  exact ⟨c, hc, h, hh, he, ht, hi, hnote⟩

/-- A delivery that was kept is owed or settled, as long as its channel lasts. -/
def Complete (s : Broker κ α σ) : Prop := ∀ p c, s.channels[p]? = some c → ∀ h ∈ c.handles,
  h.epoch = c.epoch → h.auto = false →
    (∃ o ∈ c.owed, o.tag = h.tag) ∨ ∃ r ∈ s.settled, r.key = (p, c.epoch, h.tag)

omit [DecidableEq κ] in
theorem Complete.of_set (h : Complete s) (hp : s.channels[p]? = some c)
    (ht : t.channels = s.channels.set p c') (hsettled : s.settled ⊆ t.settled)
    (hc : ∀ y ∈ c'.handles, y.epoch = c'.epoch → y.auto = false →
      (∃ o ∈ c'.owed, o.tag = y.tag) ∨ ∃ r ∈ t.settled, r.key = (p, c'.epoch, y.tag)) :
    Complete t := by
  intro q y hq
  rw [ht] at hq
  rcases Members.of_set hq with ⟨rfl, rfl⟩ | ⟨-, hq⟩
  · exact hc
  · intro x hx he ha
    rcases h q y hq x hx he ha with howed | ⟨r, hr, hkey⟩
    · exact Or.inl howed
    · exact Or.inr ⟨r, hsettled hr, hkey⟩

theorem Complete.drop (h : Complete s) (hs : Sound client s) (hp : s.channels[p]? = some c) :
    Complete (s.drop client p c) := by
  refine h.of_set hp drop_channels ?_ fun y hy he => ?_
  · rw [Broker.drop, giveBack_settled]
    exact List.Subset.refl _
  · obtain ⟨x, hx, rfl⟩ := List.mem_map.mp hy
    have hle := (hs.channels c (List.mem_of_getElem? hp)).epochs x hx
    have he : x.epoch = c.epoch + 1 := he
    omega

theorem Complete.move (h : Complete s) (hs : Sound client s) (hm : Move client s m t) :
    Complete t := by
  have hold : ∀ {p : ℕ} {c : Channel κ α σ}, s.channels[p]? = some c → ∀ y ∈ c.handles,
      y.epoch = c.epoch → y.auto = false →
        (∃ o ∈ c.owed, o.tag = y.tag) ∨ ∃ r ∈ s.settled, r.key = (p, c.epoch, y.tag) :=
    fun hp => h _ _ hp
  have hupdate : ∀ {p i : ℕ} {c : Channel κ α σ} {y : Handle α σ} {x : σ}
      {sent : Option (Bool × Verb)}, s.channels[p]? = some c → c.handles[i]? = some y →
        Complete (s.update p i c y x sent) := by
    intro p i c y x sent hp hi
    refine h.of_set hp (by rfl) (List.Subset.refl _) fun z hz he ha => ?_
    rcases List.mem_or_eq_of_mem_set hz with hz | rfl
    · exact hold hp z hz he ha
    · exact hold hp y (List.mem_of_getElem? hi) he ha
  cases hm with
  | deliver hp =>
    refine h.of_set hp (by rfl) (List.Subset.refl _) fun y hy he ha => ?_
    rcases List.mem_append.mp hy with hy | hy
    · refine (hold hp y hy he ha).imp_left ?_
      rintro ⟨o, ho, ht⟩
      exact ⟨o, List.mem_append_left _ ho, ht⟩
    · obtain rfl := List.mem_singleton.mp hy
      exact Or.inl ⟨_, List.mem_append_right _ (List.mem_singleton_self _), rfl⟩
  | handOut hp =>
    refine h.of_set hp (by rfl) (List.Subset.refl _) fun y hy he ha => ?_
    rcases List.mem_append.mp hy with hy | hy
    · exact hold hp y hy he ha
    · obtain rfl := List.mem_singleton.mp hy
      cases ha
  | quiet hp hi => exact hupdate hp hi
  | send hp hi => exact hupdate hp hi
  | @settle p c note wire o hp =>
    refine h.of_set hp settle_channels ?_ fun y hy he ha => ?_
    · rw [settle_settled]
      exact List.subset_append_left _ _
    · rw [settle_settled]
      rcases hold hp y hy he ha with ⟨o', ho', ht⟩ | ⟨r, hr, hkey⟩
      · by_cases hcov : note.Covers o'.tag
        · refine Or.inr ⟨_, List.mem_append_right _ (List.mem_map.mpr
            ⟨o', List.mem_filter.mpr ⟨ho', by simpa using hcov⟩, rfl⟩), ?_⟩
          simp [Settled.key, ht]
        · exact Or.inl ⟨o', List.mem_filter.mpr ⟨ho', by simpa using hcov⟩, ht⟩
      · exact Or.inr ⟨r, List.mem_append_left _ hr, hkey⟩
  | refuse hp => exact h.drop hs hp
  | lose hp => exact h.drop hs hp
  | _ => exact h

omit [DecidableEq κ] in
theorem fresh_complete {n : ℕ} : Complete (fresh n : Broker κ α σ) := by
  intro p c hp h hh
  rw [List.eq_of_mem_replicate (List.mem_of_getElem? hp)] at hh
  cases hh

omit [DecidableEq κ] in
theorem fresh_sound {n : ℕ} : Sound client (fresh n : Broker κ α σ) := by
  constructor
  · intro c hc
    rw [List.eq_of_mem_replicate hc]
    constructor <;> simp
  · exact fun r hr => absurd hr List.not_mem_nil
  · exact fun r hr => absurd hr List.not_mem_nil
  · exact List.nodup_nil

omit [DecidableEq κ] in
theorem fresh_clean {n : ℕ} : Clean (fresh n : Broker κ α σ) := by
  refine ⟨rfl, fun c hc => ?_⟩
  rw [List.eq_of_mem_replicate hc]
  exact ⟨fun n hn => absurd hn List.not_mem_nil, List.Pairwise.nil⟩

/-- Nothing is published, and nothing is handed out without being kept. -/
structure Broker.Keeps (s t : Broker κ α σ) : Prop where
  published : t.published = s.published
  handedOut : t.handedOut = s.handedOut

namespace Broker.Keeps

variable {queue : κ} {n : ℕ}

theorem declare : s.Keeps (s.declare queue) := by
  unfold Broker.declare
  split
  · exact ⟨rfl, rfl⟩
  · exact ⟨rfl, rfl⟩

theorem delete (h : s.delete queue = some t) : s.Keeps t := by
  simp only [Broker.delete, Option.bind_eq_bind, Option.bind_eq_some_iff, Option.pure_def,
    Option.some.injEq] at h
  obtain ⟨ms, hq, rfl⟩ := h
  exact ⟨rfl, rfl⟩

theorem expire (h : s.expire queue n = some t) : s.Keeps t := by
  simp only [Broker.expire, Option.bind_eq_bind, Option.bind_eq_some_iff, Option.pure_def,
    Option.some.injEq] at h
  obtain ⟨ms, hq, m, hm, rfl⟩ := h
  exact ⟨rfl, rfl⟩

theorem deliver {state : ℕ → Ready α → σ} (h : s.deliver p queue n state = some t) : s.Keeps t := by
  simp only [Broker.deliver, Option.bind_eq_bind, Option.bind_eq_some_iff, Option.pure_def,
    Option.some.injEq] at h
  obtain ⟨c, hp, ms, hq, m, hm, rfl⟩ := h
  exact ⟨rfl, rfl⟩

theorem drop : s.Keeps (s.drop client p c) where
  published := giveBack_frame Broker.published (fun _ _ _ => rfl) _ _
  handedOut := giveBack_frame Broker.handedOut (fun _ _ _ => rfl) _ _

theorem lose (h : s.lose client p = some t) : s.Keeps t := by
  simp only [Broker.lose, Option.bind_eq_bind, Option.bind_eq_some_iff, Option.pure_def,
    Option.some.injEq] at h
  obtain ⟨c, hp, rfl⟩ := h
  exact .drop

theorem process (h : s.process client p = some t) : s.Keeps t := by
  simp only [Broker.process, Option.bind_eq_bind, Option.bind_eq_some_iff, Option.pure_def] at h
  obtain ⟨c, hp, h⟩ := h
  split at h
  · cases h
  · split at h
    · obtain rfl := Option.some.inj h
      unfold Broker.settle
      split
      · exact ⟨giveBack_frame Broker.published (fun _ _ _ => rfl) _ _,
          giveBack_frame Broker.handedOut (fun _ _ _ => rfl) _ _⟩
      · exact ⟨rfl, rfl⟩
    · obtain rfl := Option.some.inj h
      have hdrop : s.Keeps (s.drop client p c) := .drop
      exact ⟨hdrop.published, hdrop.handedOut⟩

end Broker.Keeps

/-- What comes from a queue belongs to it, and every delivery has a property, in the epoch of its
channel. -/
structure Broker.Each (Q : κ → α → Prop) (P : ℕ → Handle α σ → Prop) (s : Broker κ α σ) : Prop where
  ready : ∀ (queue : κ) (ms : List (Ready α)), s.queues.get? queue = some ms →
    ∀ m ∈ ms, Q queue m.item
  owed : ∀ c ∈ s.channels, ∀ o ∈ c.owed, Q o.queue o.item
  handles : ∀ c ∈ s.channels, ∀ h ∈ c.handles, P c.epoch h

theorem fresh_each {Q : κ → α → Prop} {P : ℕ → Handle α σ → Prop} {n : ℕ} :
    (fresh n : Broker κ α σ).Each Q P := by
  have hempty : ∀ c ∈ (fresh n : Broker κ α σ).channels, c = ⟨0, 0, [], [], []⟩ :=
    fun c hc => List.eq_of_mem_replicate hc
  constructor
  · intro queue ms hq
    cases hq
  · intro c hc o ho
    rw [hempty c hc] at ho
    cases ho
  · intro c hc h hh
    rw [hempty c hc] at hh
    cases hh

namespace Broker.Each

variable {Q Q' : κ → α → Prop} {P P' : ℕ → Handle α σ → Prop} {queue : κ}
  {state : ℕ → Ready α → σ} {ms : List (Ready α)}

theorem mono (he : s.Each Q P) (hQ : ∀ queue item, Q queue item → Q' queue item)
    (hP : ∀ epoch h, P epoch h → P' epoch h) : s.Each Q' P' where
  ready queue ms hq m hm := hQ _ _ (he.ready queue ms hq m hm)
  owed c hc o ho := hQ _ _ (he.owed c hc o ho)
  handles c hc h hh := hP _ _ (he.handles c hc h hh)

variable (he : s.Each Q P)

include he

theorem setQueue (hms : ∀ m ∈ ms, Q queue m.item) (hq : t.queues = s.queues.set queue ms)
    (hc : t.channels = s.channels) : t.Each Q P where
  ready queue' ms' hq' := by
    rw [hq, Dict.get?_set] at hq'
    split at hq'
    · rename_i heq
      obtain rfl := Option.some.inj hq'
      rw [heq]
      exact hms
    · exact he.ready queue' ms' hq'
  owed := hc ▸ he.owed
  handles := hc ▸ he.handles

theorem setChannel (hq : t.queues = s.queues) (ht : t.channels = s.channels.set p c')
    (ho : ∀ o ∈ c'.owed, Q o.queue o.item) (hc : ∀ h ∈ c'.handles, P c'.epoch h) : t.Each Q P where
  ready := hq ▸ he.ready
  owed c hmem := by
    rw [ht] at hmem
    rcases List.mem_or_eq_of_mem_set hmem with hmem | rfl
    · exact he.owed c hmem
    · exact ho
  handles c hmem := by
    rw [ht] at hmem
    rcases List.mem_or_eq_of_mem_set hmem with hmem | rfl
    · exact he.handles c hmem
    · exact hc

theorem same (hq : t.queues = s.queues) (hc : t.channels = s.channels) : t.Each Q P where
  ready := hq ▸ he.ready
  owed := hc ▸ he.owed
  handles := hc ▸ he.handles

theorem giveBack {os : List (Owed κ α)} (ho : ∀ o ∈ os, Q o.queue o.item) :
    (os.foldl Broker.giveBack s).Each Q P := by
  induction os generalizing s with
  | nil => exact he
  | cons o os ih =>
    rw [List.foldl_cons]
    refine ih ?_ fun o' ho' => ho o' (List.mem_cons_of_mem o ho')
    unfold Broker.giveBack
    split
    · rename_i ms hq
      refine he.setQueue (fun m hm => ?_) rfl rfl
      rcases List.mem_cons.mp hm with rfl | hm
      · exact ho o List.mem_cons_self
      · exact he.ready _ ms hq m hm
    · exact he.same rfl rfl

theorem update (hp : s.channels[p]? = some c) (hx : P c.epoch { h with state := x })
    {sent : Option (Bool × Verb)} : (s.update p i c h x sent).Each Q P := by
  have hmem := List.mem_of_getElem? hp
  refine he.setChannel rfl rfl (he.owed c hmem) fun y hy => ?_
  rcases List.mem_or_eq_of_mem_set hy with hy | rfl
  · exact he.handles c hmem y hy
  · exact hx

theorem declare : (s.declare queue).Each Q P := by
  unfold Broker.declare
  split
  · exact he
  · exact he.setQueue (fun m hm => absurd hm List.not_mem_nil) rfl rfl

theorem enqueue {item : α} (hx : Q queue item) (hs : s.enqueue queue item = some t) :
    t.Each Q P := by
  simp only [Broker.enqueue, Option.bind_eq_bind, Option.bind_eq_some_iff, Option.pure_def,
    Option.some.injEq] at hs
  obtain ⟨ms, hq, rfl⟩ := hs
  refine he.setQueue (fun m hm => ?_) rfl rfl
  rcases List.mem_append.mp hm with hm | hm
  · exact he.ready queue ms hq m hm
  · obtain rfl := List.mem_singleton.mp hm
    exact hx

theorem delete (hs : s.delete queue = some t) : t.Each Q P := by
  simp only [Broker.delete, Option.bind_eq_bind, Option.bind_eq_some_iff, Option.pure_def,
    Option.some.injEq] at hs
  obtain ⟨ms, hq, rfl⟩ := hs
  refine ⟨fun queue' ms' hq' => ?_, he.owed, he.handles⟩
  simp only [Dict.get?_pop] at hq'
  split at hq'
  · cases hq'
  · exact he.ready queue' ms' hq'

theorem expire {n : ℕ} (hs : s.expire queue n = some t) : t.Each Q P := by
  simp only [Broker.expire, Option.bind_eq_bind, Option.bind_eq_some_iff, Option.pure_def,
    Option.some.injEq] at hs
  obtain ⟨ms, hq, m, hm, rfl⟩ := hs
  exact he.setQueue (fun m' hm' => he.ready queue ms hq m' (List.mem_of_mem_eraseIdx hm')) rfl rfl

theorem deliver {n : ℕ} (hnew : ∀ c ∈ s.channels, ∀ m : Ready α, Q queue m.item →
      P c.epoch ⟨c.epoch, c.lastTag + 1, m.item, m.redelivered, false, state (c.lastTag + 1) m⟩)
    (hs : s.deliver p queue n state = some t) : t.Each Q P := by
  simp only [Broker.deliver, Option.bind_eq_bind, Option.bind_eq_some_iff, Option.pure_def,
    Option.some.injEq] at hs
  obtain ⟨c, hp, ms, hq, m, hm, rfl⟩ := hs
  have hmem := List.mem_of_getElem? hp
  have hitem : Q queue m.item := he.ready queue ms hq m (List.mem_of_getElem? hm)
  have herased : { s with queues := s.queues.set queue (ms.eraseIdx n) }.Each Q P :=
    he.setQueue (fun m' hm' => he.ready queue ms hq m' (List.mem_of_mem_eraseIdx hm')) rfl rfl
  refine herased.setChannel rfl rfl (fun o ho => ?_) fun y hy => ?_
  · rcases List.mem_append.mp ho with ho | ho
    · exact he.owed c hmem o ho
    · obtain rfl := List.mem_singleton.mp ho
      exact hitem
  · rcases List.mem_append.mp hy with hy | hy
    · exact he.handles c hmem y hy
    · obtain rfl := List.mem_singleton.mp hy
      exact hnew c hmem m hitem

theorem handOut {n : ℕ} (hnew : ∀ c ∈ s.channels, ∀ m : Ready α, Q queue m.item →
      P c.epoch ⟨c.epoch, c.lastTag + 1, m.item, m.redelivered, true, state (c.lastTag + 1) m⟩)
    (hs : s.handOut p queue n state = some t) : t.Each Q P := by
  simp only [Broker.handOut, Option.bind_eq_bind, Option.bind_eq_some_iff, Option.pure_def,
    Option.some.injEq] at hs
  obtain ⟨c, hp, ms, hq, m, hm, rfl⟩ := hs
  have hmem := List.mem_of_getElem? hp
  have hitem : Q queue m.item := he.ready queue ms hq m (List.mem_of_getElem? hm)
  have herased : { s with queues := s.queues.set queue (ms.eraseIdx n) }.Each Q P :=
    he.setQueue (fun m' hm' => he.ready queue ms hq m' (List.mem_of_mem_eraseIdx hm')) rfl rfl
  refine herased.setChannel rfl rfl (he.owed c hmem) fun y hy => ?_
  rcases List.mem_append.mp hy with hy | hy
  · exact he.handles c hmem y hy
  · obtain rfl := List.mem_singleton.mp hy
    exact hnew c hmem m hitem

theorem settle (hp : s.channels[p]? = some c) {note : Note} {wire : List Note} :
    (s.settle p c note wire).Each Q P := by
  have hmem := List.mem_of_getElem? hp
  have hset : Broker.Each Q P { s with
      channels := s.channels.set p { c with
        owed := c.owed.filter fun o => ¬ note.Covers o.tag
        wire := wire }
      settled := s.settled ++ (c.owed.filter fun o => note.Covers o.tag).map fun o =>
        ⟨p, c.epoch, o.tag, o.item, note⟩ } :=
    he.setChannel rfl rfl (fun o ho => he.owed c hmem o (List.mem_filter.mp ho).1)
      (he.handles c hmem)
  unfold Broker.settle
  split
  · exact hset.giveBack fun o ho => he.owed c hmem o (List.mem_filter.mp ho).1
  · exact hset

section Losses

variable (hlost : ∀ c ∈ s.channels, ∀ h ∈ c.handles,
  P (c.epoch + 1) { h with state := client.lost h.state })

include hlost

theorem drop (hp : s.channels[p]? = some c) : (s.drop client p c).Each Q P := by
  have hmem := List.mem_of_getElem? hp
  refine giveBack ?_ (he.owed c hmem)
  refine he.setChannel rfl rfl (fun o ho => absurd ho List.not_mem_nil) fun y hy => ?_
  obtain ⟨h, hh, rfl⟩ := List.mem_map.mp hy
  exact hlost c hmem h hh

theorem lose (hs : s.lose client p = some t) : t.Each Q P := by
  simp only [Broker.lose, Option.bind_eq_bind, Option.bind_eq_some_iff, Option.pure_def,
    Option.some.injEq] at hs
  obtain ⟨c, hp, rfl⟩ := hs
  exact he.drop hlost hp

theorem process (hs : s.process client p = some t) : t.Each Q P := by
  simp only [Broker.process, Option.bind_eq_bind, Option.bind_eq_some_iff, Option.pure_def] at hs
  obtain ⟨c, hp, hs⟩ := hs
  have hmem := List.mem_of_getElem? hp
  split at hs
  · cases hs
  · split at hs
    · obtain rfl := Option.some.inj hs
      exact he.settle hp
    · obtain rfl := Option.some.inj hs
      exact (he.drop hlost hp).same rfl rfl

end Losses

end Broker.Each

end Deliveries
