import SymbolTable.Proofs.Run

/-!
# Scans of references

A scan asks its monitor before each reference and tells it of each that is done. What the two
exchange can be noted without the monitor's knowledge (`Monitor.noting`), so a scan is told by its
notes: it goes through rounds until the monitor says to stop or no reference is left, and what it
finds are those of the references gone through that belong to the symbol (`Monitor.exists_scan`).
Whatever the monitor does, a scan that is stopped found a prefix of what it would have found
(`cancelled_scans_are_prefixes`).

What every operation of a monitor keeps, a scan keeps at every moment (`Monitor.Keeps.scan`,
`Monitor.Keeps.noting`). The progress of a token does not pass its maximum, since the one is set to
zero where the other is set, and raises it where it is set itself. So it never does, in the middle
of a scan or after it, and whoever else uses the token (`Token.Arises.sound`).
-/

namespace SymbolTable

open SymbolTable.Action

variable {μ α σ : Type}

/-! ## Symbols that are there -/

namespace Action

variable {s : Situated σ} {h : HandleId}

/-- A handle that is made current keeps its key, and references stay what they are. So the
references that are scanned are those that were there when the scan was asked for. -/
theorem ends_refresh_key (t : Table) (h : HandleId) :
    Ends t (refresh h : Action σ Unit) fun answer t' => answer = .ok () →
      (t'.handle h).key = (t.handle h).key ∧ t'.references = t.references := by
  have hvanishes : Ends t (vanish h (t.handle h).key : Action σ Unit) fun answer t' => answer = .ok () →
      (t'.handle h).key = (t.handle h).key ∧ t'.references = t.references :=
    .change_bind (.fail nofun)
  refine .look_bind (.look_bind ?_)
  split
  · exact .fail nofun
  · split
    · exact .pure fun _ => ⟨rfl, rfl⟩
    · rename_i r _
      split
      · exact .pure fun _ => ⟨rfl, rfl⟩
      · refine .seq (.askStore fun now => ?_)
        cases t.store.get now r.id with
        | error fault => exact nofun
        | ok found =>
          refine .ok ?_
          cases found with
          | none => exact hvanishes
          | some row =>
            dsimp only
            split
            · exact .change fun _ => ⟨Table.map_updateHandle Handle.key rfl, rfl⟩
            · exact hvanishes

/-- All that is asked of a symbol that says it is there is asked of one table, which has the
references that there were. -/
theorem exists_run_current_look (hvalid : ((isValid h).run s).1 = .ok true) :
    ∃ s' : Situated σ, (∀ {α : Type} (q : Table → α), (current h (look q)).run s = (.ok (q s'.table), s')) ∧
      (s'.table.handle h).key = (s.table.handle h).key ∧ s'.table.references = s.table.references := by
  have hkept : Ends s.table (current h (pure ()) : Action σ Unit) fun answer t' => answer = .ok () →
      (t'.handle h).key = (s.table.handle h).key ∧ t'.references = s.table.references :=
    .ask_bind (fun _ _ => .bind (ends_refresh_key s.table h) (fun _ _ hkept => .pure hkept) fun _ _ _ => nofun)
      fun _ _ => nofun
  obtain ⟨s', hrun, hcurrent⟩ := exists_run_current hvalid
  have hkept' := hkept s rfl
  rw [hrun] at hkept'
  exact ⟨s', fun q => hcurrent (look q), hkept' rfl⟩

end Action

/-! ## Notes of a scan -/

namespace Monitor

/-- What a scan and its monitor say to each other. -/
inductive Exchange where
  /-- The monitor was asked whether to stop. -/
  | asked (stop : Bool)
  /-- It was told how many steps are done. -/
  | told (steps : UInt64)
  /-- It was told how many steps are expected. -/
  | expected (steps : UInt64)
  deriving DecidableEq

/-- A monitor with notes of all that is exchanged with it, and of its state each time. -/
def noting (m : Monitor μ) : Monitor (μ × List (Exchange × μ)) where
  poll w := ((m.poll w.1).1, (m.poll w.1).2, w.2 ++ [(.asked (m.poll w.1).1, (m.poll w.1).2)])
  advance n w := (m.advance n w.1, w.2 ++ [(.told n, m.advance n w.1)])
  maximum w := m.maximum w.1
  start n w := (m.start n w.1, w.2 ++ [(.expected n, m.start n w.1)])

/-- What is exchanged in `k` rounds of a scan after `done` others: before each step the monitor says
to go on, and after it, it is told of it. -/
def rounds (done k : Nat) : List Exchange :=
  (List.range' (done + 1) k).flatMap fun step => [.asked false, .told (UInt64.ofNat step)]

@[simp] theorem rounds_zero (done : Nat) : rounds done 0 = [] := rfl

/-- A round is to be asked, to go on, and to be told of the step. The number that is told comes
round with the word. -/
theorem rounds_succ (done k : Nat) :
    rounds done (k + 1) = .asked false :: .told (UInt64.ofNat (done + 1)) :: rounds (done + 1) k := rfl

section
variable {m : Monitor μ} {keep : α → Bool} {done : Nat} {x : α} {xs : List α} {w w₁ : μ}

/-- A scan that is told to stop ends where it is, with nothing found from there on. -/
theorem scan_cons_of_stop (hpoll : m.poll w = (true, w₁)) : m.scan keep done (x :: xs) w = ([], w₁) := by
  rw [scan, hpoll]

/-- A scan that is told to go on looks at the next element, tells of it and goes through the
rest. -/
theorem scan_cons_of_go (hpoll : m.poll w = (false, w₁)) {w₂ w' : μ} {found : List α}
    (hadvance : m.advance (UInt64.ofNat (done + 1)) w₁ = w₂) (hrest : m.scan keep (done + 1) xs w₂ = (found, w')) :
    m.scan keep done (x :: xs) w = (if keep x then x :: found else found, w') := by
  simp only [scan, hpoll, hadvance, hrest]

/-- A monitor with notes answers as it does without them, and notes what it answered. -/
theorem poll_noting {stop : Bool} (hpoll : m.poll w = (stop, w₁)) (log : List (Exchange × μ)) :
    m.noting.poll (w, log) = (stop, w₁, log ++ [(.asked stop, w₁)]) := by
  simp only [noting, hpoll]

/-- A monitor with notes is told what it is told without them, and notes it. -/
theorem advance_noting {n : UInt64} (hadvance : m.advance n w = w₁) (log : List (Exchange × μ)) :
    m.noting.advance n (w, log) = (w₁, log ++ [(.told n, w₁)]) := by
  simp only [noting, hadvance]

end

/-- A scan goes through `k` elements, and stops before the next one if there is one. The notes show
it, and taking them makes no difference. -/
theorem exists_scan (m : Monitor μ) (keep : α → Bool) (done : Nat) (xs : List α) (w : μ) :
    ∃ k ≤ xs.length, ∃ w' log, m.scan keep done xs w = ((xs.take k).filter keep, w') ∧
      (∀ before, m.noting.scan keep done xs (w, before) = ((xs.take k).filter keep, w', before ++ log)) ∧
      log.map (·.1) = rounds done k ++ if k < xs.length then [.asked true] else [] := by
  induction xs generalizing done w with
  | nil => exact ⟨0, Nat.le_refl _, w, [], rfl, fun before => by simp [scan], rfl⟩
  | cons x xs ih =>
    cases hpoll : m.poll w with
    | mk stop w₁ =>
      cases stop with
      | true =>
        exact ⟨0, Nat.zero_le _, w₁, [(.asked true, w₁)], scan_cons_of_stop hpoll,
          fun before => scan_cons_of_stop (poll_noting hpoll before), by simp⟩
      | false =>
        obtain ⟨w₂, hadvance⟩ : ∃ w₂, m.advance (UInt64.ofNat (done + 1)) w₁ = w₂ := ⟨_, rfl⟩
        obtain ⟨k, hk, w', log, hscan, hnoting, hlog⟩ := ih (done + 1) w₂
        refine ⟨k + 1, Nat.succ_le_succ hk, w', (.asked false, w₁) :: (.told (UInt64.ofNat (done + 1)), w₂) :: log,
          ?_, fun before => ?_, ?_⟩
        · rw [scan_cons_of_go hpoll hadvance hscan, List.take_succ_cons, List.filter_cons]
        · rw [scan_cons_of_go (poll_noting hpoll before) (advance_noting hadvance _) (hnoting _), List.take_succ_cons,
            List.filter_cons, List.append_assoc, List.append_assoc]
          rfl
        · rw [rounds_succ, List.map_cons, List.map_cons, hlog, List.length_cons]
          simp only [Nat.add_lt_add_iff_right, List.cons_append]

/-! ## What a scan keeps -/

/-- Whatever is exchanged with the monitor, its state stays one of these. -/
structure Keeps (m : Monitor μ) (I : μ → Prop) : Prop where
  poll : ∀ w, I w → I (m.poll w).2
  advance : ∀ n w, I w → I (m.advance n w)
  start : ∀ n w, I w → I (m.start n w)

namespace Keeps

variable {m : Monitor μ} {I : μ → Prop} {w : μ} (hm : m.Keeps I)

include hm

/-- A scan keeps what every exchange keeps, by induction on what is left to be scanned. The monitor
is asked before each element and told after it, and what it does in between is its own. -/
theorem scan (keep : α → Bool) (done : Nat) (xs : List α) (hw : I w) : I (m.scan keep done xs w).2 := by
  induction xs generalizing done w with
  | nil => exact hw
  | cons x xs ih =>
    have hpolled := hm.poll w hw
    cases hpoll : m.poll w with
    | mk stop w₁ =>
      rw [hpoll] at hpolled
      cases stop with
      | true =>
        rw [scan_cons_of_stop hpoll]
        exact hpolled
      | false =>
        rw [scan_cons_of_go hpoll rfl rfl]
        exact ih (done + 1) (hm.advance _ _ hpolled)

/-- What every exchange keeps is so in all notes. So an invariant of the state holds not only when a
scan is over but in each of its moments, which are the notes. -/
theorem noting : m.noting.Keeps fun p => I p.1 ∧ ∀ x ∈ p.2, I x.2 := by
  have hnoted {log : List (Exchange × μ)} {e : Exchange} {w : μ} (hlog : ∀ x ∈ log, I x.2) (hw : I w) :
      I w ∧ ∀ x ∈ log ++ [(e, w)], I x.2 := by
    refine ⟨hw, fun x hx => ?_⟩
    rcases List.mem_append.1 hx with hx | hx
    · exact hlog x hx
    · rw [List.mem_singleton.1 hx]
      exact hw
  exact ⟨fun p hp => hnoted hp.2 (hm.poll _ hp.1), fun n p hp => hnoted hp.2 (hm.advance n _ hp.1),
    fun n p hp => hnoted hp.2 (hm.start n _ hp.1)⟩

/-- A scan of the references of a symbol keeps what every exchange does. The maximum may be set
before the scan, which is one more exchange. -/
theorem references {s s' : Situated σ} {h : HandleId} {x : List Reference × μ} (hw : I w)
    (hrun : (Action.references m h w).run s = (.ok x, s')) : I x.2 := by
  have hscan (t : Table) : I (t.scanReferences m h w).2 := by
    refine hm.scan _ _ _ ?_
    split
    · exact hm.start _ _ hw
    · exact hw
  have htold : Ends s.table (Action.references m h w : Action σ _) fun answer _ => ∀ x, answer = .ok x → I x.2 := by
    refine .ask_bind (fun _ _ => (Action.ends_refresh_key s.table h).bind (fun _ t' _ => .look ?_) fun _ _ _ => nofun)
      fun _ _ => nofun
    rintro _ ⟨⟩
    exact hscan t'
  exact htold s rfl x (congrArg Prod.fst hrun)

end Keeps

end Monitor

/-- A scan goes through `k` of the references to the address of the symbol, and stops before the
next one if there is one. -/
theorem Table.exists_scanReferences (t : Table) (m : Monitor μ) (h : HandleId) (w : μ) :
    let refs := t.references.into (t.handle h).address
    ∃ k ≤ refs.length, ∃ w' log, t.scanReferences m h w = ((refs.take k).filter (t.handleOwns h), w') ∧
      t.scanReferences m.noting h (w, []) = ((refs.take k).filter (t.handleOwns h), w', log) ∧
      log.map (·.1) = (if m.maximum w = 0 then [.expected (UInt64.ofNat refs.length)] else []) ++
        Monitor.rounds 0 k ++ if k < refs.length then [.asked true] else [] := by
  intro refs
  obtain ⟨k, hk, w', log, hscan, hnoting, hlog⟩ := m.exists_scan (t.handleOwns h) 0 refs
    (if m.maximum w = 0 then m.start (UInt64.ofNat refs.length) w else w)
  by_cases hunknown : m.maximum w = 0
  · rw [if_pos hunknown] at hscan hnoting
    refine ⟨k, hk, w', (.expected (UInt64.ofNat refs.length), m.start (UInt64.ofNat refs.length) w) :: log, ?_, ?_, ?_⟩
    · simp only [scanReferences, if_pos hunknown, hscan, refs]
    · have hmaximum : m.noting.maximum (w, []) = 0 := hunknown
      simp only [scanReferences, if_pos hmaximum]
      exact hnoting [(.expected (UInt64.ofNat refs.length), m.start (UInt64.ofNat refs.length) w)]
    · rw [List.map_cons, hlog, if_pos hunknown]
      rfl
  · rw [if_neg hunknown] at hscan hnoting
    have hmaximum : m.noting.maximum (w, []) ≠ 0 := hunknown
    refine ⟨k, hk, w', log, ?_, ?_, ?_⟩
    · simp only [scanReferences, if_neg hunknown, hscan, refs]
    · simp only [scanReferences, if_neg hmaximum]
      exact hnoting []
    · rw [hlog, if_neg hunknown]
      rfl

/-! ## Tokens -/

namespace Token

/-- What becomes of a token that is used any number of times. -/
inductive Becomes (t : Token) : Token → Prop where
  | refl : Becomes t t
  | start {t' : Token} (h : Becomes t t') (n : UInt64) : Becomes t (t'.start n)
  | advance {t' : Token} (h : Becomes t t') (n : UInt64) : Becomes t (t'.advance n)
  | cancel {t' : Token} (h : Becomes t t') : Becomes t t'.cancel

end Token

/-- Scans use the token that is seen in the state of the monitor. Others may use it whenever the
monitor is asked or told something. -/
structure Monitor.Uses (m : Monitor μ) (token : μ → Token) : Prop where
  poll : ∀ w, (token w).Becomes (token (m.poll w).2)
  advance : ∀ n w, ((token w).advance n).Becomes (token (m.advance n w))
  start : ∀ n w, ((token w).start n).Becomes (token (m.start n w))

/-- A token is its own state. -/
theorem Monitor.uses_token : token.Uses id :=
  ⟨fun _ => .refl, fun _ _ => .refl, fun _ _ => .refl⟩

/-- A watch uses the token that it carries, and besides counts how often it may be asked. The number
of times is no part of the token, so it may change freely. -/
theorem Monitor.uses_watch : watch.Uses (·.token) := by
  refine ⟨fun w => ?_, fun _ _ => .refl, fun _ _ => .refl⟩
  show w.token.Becomes w.poll.2.token
  unfold Watch.poll
  split
  · exact .refl
  · split
    · exact .refl
    · exact .cancel .refl
    · exact .refl

namespace Token

/-- What may become of a new token that is used, by scans too, and that of a scan at each of its
moments. -/
inductive Arises : Token → Prop where
  | fresh : Arises .fresh
  | used {t t' : Token} (h : Arises t) (hused : t.Becomes t') : Arises t'
  | during {σ μ : Type} {m : Monitor μ} {token : μ → Token} (huses : m.Uses token) {w : μ} (h : Arises (token w))
      {s s' : Situated σ} {k : HandleId} {found : List Reference} {w' : μ} {log : List (Monitor.Exchange × μ)}
      (hscan : (references m.noting k (w, [])).run s = (.ok (found, w', log), s')) {x : Monitor.Exchange × μ}
      (hx : x ∈ log) : Arises (token x.2)
  | after {σ μ : Type} {m : Monitor μ} {token : μ → Token} (huses : m.Uses token) {w : μ} (h : Arises (token w))
      {s s' : Situated σ} {k : HandleId} {found : List Reference} {w' : μ}
      (hscan : (references m k w).run s = (.ok (found, w'), s')) : Arises (token w')

variable {t t' : Token}

/-- A token that is started is sound: its progress is set to zero together with its maximum. -/
theorem sound_start (t : Token) (n : UInt64) : (t.start n).Sound :=
  UInt64.zero_le

/-- A token that is advanced is sound, for a progress beyond the maximum raises the maximum. -/
theorem sound_advance (t : Token) (n : UInt64) : (t.advance n).Sound := by
  show n ≤ if t.maximum ≤ n then n else t.maximum
  split
  · exact UInt64.le_refl n
  · rename_i hgt
    exact UInt64.le_of_lt (UInt64.not_le.1 hgt)

/-- Whatever is done with a sound token, it stays sound. The induction is on what is done with
it. -/
theorem Sound.becomes (ht : t.Sound) (h : t.Becomes t') : t'.Sound := by
  induction h with
  | refl => exact ht
  | start => exact sound_start _ _
  | advance => exact sound_advance _ _
  | cancel _ ih => exact ih

/-- A monitor that uses a token keeps it sound at every exchange. -/
theorem keeps_sound {m : Monitor μ} {token : μ → Token} (huses : m.Uses token) : m.Keeps fun w => (token w).Sound where
  poll w hw := hw.becomes (huses.poll w)
  advance n w _ := (sound_advance _ n).becomes (huses.advance n w)
  start n w _ := (sound_start _ n).becomes (huses.start n w)

/-- A token that arises from a new one is sound at each moment, in the middle of a scan, too. There
is one case for each way in which a token is come by. In the middle of a scan it is the notes that
are looked at. -/
theorem Arises.sound (h : t.Arises) : t.Sound := by
  induction h with
  | fresh => exact UInt64.zero_le
  | used _ hused ih => exact ih.becomes hused
  | during huses _ hscan hx ih => exact ((keeps_sound huses).noting.references ⟨ih, List.forall_mem_nil _⟩ hscan).2 _ hx
  | after huses _ hscan ih => exact (keeps_sound huses).references ih hscan

end Token

/-! ## Scans that are stopped -/

/-- **A scan that is stopped found a prefix of the full answer.** Whatever the table and the index
of references are, a symbol that says it is there tells where it lies and whether it is primary, and
its references are scanned under any monitor. If the monitor expects none, it is first told how many
references lead to this address. Then it is asked before each of them and told of each, by the
numbers from one on, until it says to stop or none is left; these are `k`, and what is found are
those among the first `k` that the symbol owns, in the order of the index. To note all this makes no
difference. And as for tokens, their progress does not pass their maximum, in the middle of a scan
or otherwise, however they are used. -/
theorem cancelled_scans_are_prefixes :
    (∀ {σ : Type} (s : Situated σ) (h : HandleId), ((isValid h).run s).1 = .ok true →
      ∃ a primary, ((telling h (·.address)).run s).1 = .ok a ∧
        ((current h (look (·.isPrimary h))).run s).1 = .ok primary ∧
        ∀ {μ : Type} (m : Monitor μ) (w : μ),
          let refs := s.table.references.into a
          ∃ k ≤ refs.length, ∃ w' log s',
            (references m h w).run s =
              (.ok ((refs.take k).filter (Table.owns (s.table.handle h).id? primary), w'), s') ∧
            (references m.noting h (w, [])).run s =
              (.ok ((refs.take k).filter (Table.owns (s.table.handle h).id? primary), w', log), s') ∧
            log.map (·.1) = (if m.maximum w = 0 then [.expected (UInt64.ofNat refs.length)] else []) ++
              ((List.range' 1 k).flatMap fun step => [.asked false, .told (UInt64.ofNat step)]) ++
              if k < refs.length then [.asked true] else []) ∧
    Monitor.token.Uses id ∧ Monitor.watch.Uses (·.token) ∧ ∀ t : Token, t.Arises → t.Sound := by
  refine ⟨fun s h hvalid => ?_, Monitor.uses_token, Monitor.uses_watch, fun t => Token.Arises.sound⟩
  obtain ⟨s', hasked, hkey, hreferences⟩ := exists_run_current_look hvalid
  refine ⟨(s'.table.handle h).address, s'.table.isPrimary h, congrArg Prod.fst (hasked _), congrArg Prod.fst (hasked _),
    fun {μ} m w => ?_⟩
  obtain ⟨k, hk, w', log, hscan, hnoting, hlog⟩ := s'.table.exists_scanReferences m h w
  have howns : Table.owns (s.table.handle h).id? (s'.table.isPrimary h) = s'.table.handleOwns h := by
    rw [Table.handleOwns, Handle.id?, Handle.id?, hkey]
  rw [hreferences] at hk hscan hnoting hlog
  refine ⟨k, hk, w', log, s', ?_, ?_, hlog⟩
  · rw [references, hasked, hscan, howns]
  · rw [references, hasked, hnoting, howns]

/-- Of four references, two are gone through before the token is raised, of which one belongs to the
label. The token expects fewer of them than are gone through. -/
theorem cancelled_scans_are_prefixes_of_two :
    let s₀ : Situated Unit := ⟨.empty default .standard, (), 0⟩
    let hot : Draft := ⟨"hot", .label, .ram 16, .global, .userDefined, 0, 0, none⟩
    let s₁ := (((Move.create hot).action Listener.idle).run s₀).2
    let owners : List Owner := [.primary, .symbol ⟨7, by decide⟩, .primary, .symbol ⟨1, by decide⟩]
    let references := owners.foldl (fun x owner => x.add ⟨.ram 64, .ram 16, .jump, owner⟩) .empty
    let s : Situated Unit := { s₁ with table := { s₁.table with references := references } }
    let w : Monitor.Watch := ⟨⟨false, 0, 1⟩, some 2⟩
    ((isValid 0).run s).1 = .ok true ∧
      ((Action.references Monitor.watch 0 w).run s).1 =
        .ok ([⟨.ram 64, .ram 16, .jump, .primary⟩], ⟨⟨true, 2, 2⟩, some 0⟩) ∧
      ((Action.references Monitor.silent 0 ()).run s).1 =
        .ok (([.primary, .primary, .symbol ⟨1, by decide⟩].map (⟨.ram 64, .ram 16, .jump, ·⟩)), ()) ∧
      ∃ a primary, ((telling 0 (·.address)).run s).1 = .ok a ∧
        ((current 0 (look (·.isPrimary 0))).run s).1 = .ok primary ∧
        let refs := s.table.references.into a
        ∃ k ≤ refs.length, ∃ w' log s',
          (Action.references Monitor.watch 0 w).run s =
            (.ok ((refs.take k).filter (Table.owns (s.table.handle 0).id? primary), w'), s') ∧
          (Action.references Monitor.watch.noting 0 (w, [])).run s =
            (.ok ((refs.take k).filter (Table.owns (s.table.handle 0).id? primary), w', log), s') ∧
          log.map (·.1) = (if Monitor.watch.maximum w = 0 then [.expected (UInt64.ofNat refs.length)] else []) ++
            ((List.range' 1 k).flatMap fun step => [.asked false, .told (UInt64.ofNat step)]) ++
            if k < refs.length then [.asked true] else [] := by
  intro s₀ hot s₁ owners references s w
  have hvalid : ((isValid 0).run s).1 = .ok true := by decide +kernel
  obtain ⟨a, primary, haddress, hprimary, hscans⟩ := cancelled_scans_are_prefixes.1 s 0 hvalid
  exact ⟨hvalid, by decide +kernel, by decide +kernel, a, primary, haddress, hprimary, hscans Monitor.watch w⟩

end SymbolTable
