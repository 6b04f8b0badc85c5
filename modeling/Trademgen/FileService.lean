import Trademgen.PoissonEnds

/-!
From a demand file to the service.

A row creates streams whose draws cannot fail when its shares cover all variates; whatever a file
holds besides, the shell and the batch then serve what it created.
-/

set_option linter.unusedSectionVars false

namespace Spirit

/-! ### Actions of every match -/

/-- The actions that no match of a grammar goes without. -/
def Grammar.always {A : Type} : Grammar A → List A
  | seq p q => p.always ++ q.always
  | lexeme p => p.always
  | act p a => p.always ++ [a]
  | _ => []

/-- They are in its trace. -/
lemma Reads.mem_always {K A B : Type} [Field K] {view : A → Value K → List Char → B}
    {p : Grammar A} {a : A} (ha : a ∈ p.always) :
    ∀ {skip : List Char → List Char} {xs r : List Char} {v : Value K} {es : List (Event A B)},
      Reads view p skip xs v r es → ∃ e ∈ es, e.action = a := by
  induction p with
  | seq p q ihp ihq =>
    intro skip xs r v es h
    obtain ⟨v₁, r₁, e₁, e₂, hp, hq, rfl⟩ := reads_seq.mp h
    rcases List.mem_append.mp ha with ha | ha
    · obtain ⟨e, he, heq⟩ := ihp ha hp
      exact ⟨e, List.mem_append_left _ he, heq⟩
    · obtain ⟨e, he, heq⟩ := ihq ha hq
      exact ⟨e, List.mem_append_right _ he, heq⟩
  | lexeme p ih =>
    intro skip xs r v es h
    exact ih ha (reads_lexeme.mp h)
  | act p b ih =>
    intro skip xs r v es h
    obtain ⟨e₁, hp, rfl⟩ := reads_act.mp h
    rcases List.mem_append.mp ha with ha | ha
    · obtain ⟨e, he, heq⟩ := ih ha hp
      exact ⟨e, List.mem_append_left _ he, heq⟩
    · exact ⟨_, List.mem_append_right _ (List.mem_singleton_self _),
        (List.mem_singleton.mp ha).symm⟩
  | _ => cases ha

end Spirit

namespace Trademgen

open Spirit OrderedMap Faulting EventQueue DemandManager DemandStream

variable {K G Q : Type} [Field K] [LinearOrder K] [FloorRing K] [Libm K] [RandomGeneration K G]
  [EventQueue K Q] {m : DemandGenerationMethod}

/-! ### New streams -/

/-- A stream that was just started, of a row that `P` holds of. -/
structure DemandStream.New (P : DemandCharacteristics K → DemandDistribution K → Prop)
    (key : DemandStreamKey) (s : DemandStream K G) : Prop where
  key : s.key = key
  started : s.Started
  row : P s.demandCharacteristics s.demandDistribution

/-- Streams were created, and those that were not created are as they were. -/
structure Grown (P : DemandCharacteristics K → DemandDistribution K → Prop)
    (w w' : World K G Q) : Prop where
  queue : w'.queue = w.queue
  stream : ∀ key ∈ w'.demandStreamList,
    key ∈ w.demandStreamList ∧ w'.demandStream key = w.demandStream key ∨
      (w'.demandStream key).New P key

section Grown

variable {P : DemandCharacteristics K → DemandDistribution K → Prop} {w w' w'' : World K G Q}

lemma Grown.refl (w : World K G Q) : Grown P w w := ⟨rfl, fun _ hkey => .inl ⟨hkey, rfl⟩⟩

lemma Grown.trans (h : Grown P w w') (h' : Grown P w' w'') : Grown P w w'' := by
  refine ⟨h'.queue.trans h.queue, fun key hkey => ?_⟩
  rcases h'.stream key hkey with ⟨hold, heq⟩ | hnew
  · rw [heq]
    exact h.stream key hold
  · exact .inr hnew

/-- **A stream** is created. -/
lemma createDemandStream_grown {key : DemandStreamKey} {c : DemandCharacteristics K}
    {dist : DemandDistribution K} {n k : ℕ} {s : DemandStream K G} (hP : P c dist)
    (h : createDemandStream key c dist n k w = .ok s w') : Grown P w w' := by
  have hstream : w'.demandStream = Function.update w.demandStream key
      ((make key).setAll c dist w.generator n k).1 := by
    cases h
    rfl
  have hlist : w'.demandStreamList = w.demandStreamList ++ [key] := by
    cases h
    rfl
  refine ⟨by cases h; rfl, fun key' hkey' => ?_⟩
  rw [hlist, List.mem_append, List.mem_singleton] at hkey'
  rw [hstream]
  by_cases heq : key' = key
  · subst heq
    rw [Function.update_self]
    exact .inr ⟨rfl, .setAll _ _ _ _ _ _, hP⟩
  · rw [Function.update_of_ne heq]
    exact .inl ⟨hkey'.resolve_right heq, rfl⟩

lemma generateSeed_grown {n : ℕ}
    (h : (generateSeed : EStateM Fault (World K G Q) ℕ) w = .ok n w') : Grown P w w' := by
  cases h
  exact ⟨rfl, fun _ hkey => .inl ⟨hkey, rfl⟩⟩

lemma addStatus_grown {x : K}
    (h : (addStatus x : EStateM Fault (World K G Q) PUnit) w = .ok ⟨⟩ w') : Grown P w w' := by
  cases h
  exact ⟨rfl, fun _ hkey => .inl ⟨hkey, rfl⟩⟩

lemma createForDate_grown {d : DemandStruct K} {x : Date}
    (hP : d.isActive x = true → P (characteristicsOf d) ⟨d.demandMean, d.demandStdDev⟩)
    (h : createForDate d x w = .ok ⟨⟩ w') : Grown P w w' := by
  by_cases hx : d.isActive x = true
  · have hrow := hP hx
    unfold DemandStruct.isActive at hx
    simp only [createForDate, hx, if_true] at h
    obtain ⟨n, w₁, hn, h₁⟩ := bind_eq_ok.mp h
    obtain ⟨k, w₂, hk, h₂⟩ := bind_eq_ok.mp h₁
    obtain ⟨s, w₃, hs, h₃⟩ := bind_eq_ok.mp h₂
    exact (((generateSeed_grown hn).trans (generateSeed_grown hk)).trans
      (createDemandStream_grown hrow hs)).trans (addStatus_grown h₃)
  · rw [createForDate_inactive (Bool.not_eq_true _ ▸ hx)] at h
    cases h
    exact .refl _

/-- **The dates** of a row. -/
lemma iterateDates_grown {d : DemandStruct K} (n : ℕ) : ∀ {x : ℤ} {w : World K G Q},
    x ≤ d.dateRange.end_ →
    (∀ y : ℤ, x ≤ y → y < d.dateRange.end_ → d.isActive y = true →
      P (characteristicsOf d) ⟨d.demandMean, d.demandStdDev⟩) →
    iterateDates d n x w = .ok ⟨⟩ w' → Grown P w w' := by
  induction n with
  | zero =>
    intro x w _ _ h
    cases h
  | succ n ih =>
    intro x w hx hP h
    rw [iterateDates] at h
    split_ifs at h with hend
    · have hlt : x < d.dateRange.end_ := lt_of_le_of_ne hx hend
      obtain ⟨_, w₁, hw₁, hrest⟩ := bind_eq_ok.mp h
      have hnext : x + 1 ≤ d.dateRange.end_ := Int.add_one_le_of_lt hlt
      exact (createForDate_grown (hP x le_rfl hlt) hw₁).trans
        (ih hnext (fun y hy => hP y ((Int.lt_succ x).le.trans hy)) hrest)
    · cases h
      exact .refl _

/-- All the streams are new where there was none. -/
lemma Grown.all_new (h : Grown P w w') (hw : w.demandStreamList = []) {key : DemandStreamKey}
    (hkey : key ∈ w'.demandStreamList) : (w'.demandStream key).New P key := by
  refine (h.stream key hkey).resolve_left fun ⟨hold, _⟩ => ?_
  rw [hw] at hold
  cases hold

end Grown

/-! ### Characteristics that can be used -/

/-- No draw of a stream with these characteristics fails, by the method. -/
structure Usable (G : Type) [RandomGeneration K G] (m : DemandGenerationMethod)
    (c : DemandCharacteristics K) (dist : DemandDistribution K) : Prop where
  fit : Fit G c
  leads : m = .POI_PRO → ∃ k, c.arrivalPattern.Leads k
  nonneg : m = .POI_PRO → ∀ i < c.arrivalPattern.size, 0 ≤ c.arrivalPattern.c i
  mean_pos : m = .POI_PRO → 0 < dist.meanNumberOfRequests

/-- **New streams** serve, by the method that they can be used with. -/
lemma Grown.serviceable {w w' : World K G Q} (h : Grown (Usable G m) w w')
    (hw : w.demandStreamList = []) : w'.Serviceable m := by
  refine ⟨fun key hkey => .started (h.all_new hw hkey).started, fun key hkey => ?_⟩
  obtain ⟨-, -, hfit, hleads, hnonneg, hmean⟩ := h.all_new hw hkey
  exact ⟨hfit, hleads, hnonneg, hmean⟩

lemma Grown.equipped {w w' : World K G Q} (h : Grown (Usable G m) w w')
    (hw : w.demandStreamList = []) (hqueue : contents w.queue = 0)
    (hnodup : w'.demandStreamList.Nodup) : Equipped m w' := by
  refine ⟨hnodup, fun key hkey => (h.all_new hw hkey).key,
    fun key hkey => (h.all_new hw hkey).started, (h.serviceable hw).stream, ?_⟩
  rw [h.queue]
  exact hqueue

section Fit

variable [IsStrictOrderedRing K]

/-- Shares that are not negative, and that cover all variates. -/
structure Covering {T : Type} [LinearOrder T] (m : OMap T K) : Prop where
  nonneg : ∀ e ∈ m.pairs, 0 ≤ e.2
  sum : 1 ≤ (m.pairs.map Prod.snd).sum

lemma Covering.draw {T : Type} [LinearOrder T] {m : OMap T K} (h : Covering m)
    (hu : UniformLaw K G) (g : G) (n : ℕ) :
    ∃ x, (CategoricalAttributeLite.init m).getValue (variate g n) = .ok x := by
  obtain ⟨hlow, hhigh⟩ := hu (advance g n)
  obtain ⟨x, _, hx, -⟩ := (CategoricalAttributeLite.getValue_every_iff m h.nonneg).mpr h.sum
    (variate g n) hlow hhigh
  exact ⟨x, hx⟩

lemma exists_getValue_of_ne_nil {T : Type} [LinearOrder T] [Numeric T K] {m : OMap T K}
    (h : m.pairs ≠ []) (p : K) : ∃ x, (ContinuousAttributeLite.init m).getValue p = .ok x :=
  ContinuousAttributeLite.exists_getValue _ (List.length_pos_of_ne_nil h) p

/-- **The characteristics** of covering shares and of tables with a knot. -/
lemma fit_make (hu : UniformLaw K G) {arrival : OMap K K} {pos channel trip : OMap String K}
    {stay : OMap ℕ K} {ff : OMap String K} {fee feeDis nonRef nonRefDis : K} {time : OMap ℤ K}
    {wtp : K} {value : OMap K K} (harrival : arrival.pairs ≠ []) (hpos : Covering pos)
    (hchannel : Covering channel) (htrip : Covering trip) (hstay : Covering stay)
    (hff : Covering ff) (htime : time.pairs ≠ []) (hvalue : value.pairs ≠ []) :
    Fit G (.make arrival pos channel trip stay ff fee feeDis nonRef nonRefDis time wtp value) := by
  refine ⟨List.length_pos_of_ne_nil harrival,
    List.length_pos_of_ne_nil (OMap.ofPairs_pairs_ne_nil (List.cons_ne_nil _ _)), fun g => ?_⟩
  obtain ⟨pos', hpos'⟩ := hpos.draw hu g 0
  obtain ⟨channel', hchannel'⟩ := hchannel.draw hu g 1
  obtain ⟨trip', htrip'⟩ := htrip.draw hu g 2
  obtain ⟨stay', hstay'⟩ := hstay.draw hu g 3
  obtain ⟨ff', hff'⟩ := hff.draw hu g 4
  obtain ⟨time', htime'⟩ := exists_getValue_of_ne_nil htime (variate g 7)
  obtain ⟨value', hvalue'⟩ := exists_getValue_of_ne_nil hvalue (variate g 8)
  exact ⟨⟨pos', channel', trip', stay', ff', time', value', hpos', hchannel', htrip', hstay', hff',
    htime', hvalue'⟩⟩

end Fit

/-! ### Rows -/

section Events

variable {K : Type}

lemma any_optionEvents {a b : Action} (x : Option ℕ) :
    (optionEvents (K := K) a x).any (fun e => decide (e.action = b))
      = (x.isSome && decide (a = b)) := by
  cases x <;> simp [optionEvents]

lemma any_false {α : Type} (l : List α) : (l.any fun _ => false) = false := by simp

lemma Row.dist_ne_nil [Zero K] [LE K] {R : Row K} {e : Event Action (Datum K)}
    (he : e ∈ R.events) :
    (e.action = .storePrefDepTimeProbMass → R.prefDepTimeDist ≠ []) ∧
    (e.action = .storeTimeValueProbMass → R.timeValueDist ≠ []) ∧
    (e.action = .storeDTDProbMass → R.dtdDist ≠ []) := by
  refine ⟨fun h hnil => ?_, fun h hnil => ?_, fun h hnil => ?_⟩
  all_goals
    have hany : R.events.any (fun x => decide (x.action = e.action)) = false := by
      rw [h]
      simp [-List.any_eq_false, Row.events, hnil, pairEvents, CalendarDate.events,
        ClockTime.events, any_optionEvents, any_false]
    exact absurd rfl (of_decide_eq_false (Bool.eq_false_iff.mpr (List.any_eq_false.mp hany e he)))

end Events

section Rows

variable [IsStrictOrderedRing K] {text rest : List Char} {s s' : ParserState K G Q} {v : Value K}
  {R : Row K} {d : DemandStruct K}

/-- A row that the streams made from it can be used with, by the method. -/
structure Row.Usable (m : DemandGenerationMethod) (R : Row K) : Prop where
  coversAll : R.CoversAll
  leads : m = .POI_PRO → ∃ k, (ContinuousAttributeLite.init (OMap.ofPairs R.wholeDtdKnots)).Leads k
  mean_pos : m = .POI_PRO → 0 < R.demandMean.1

lemma covering_of_perm {T : Type} [LinearOrder T] {m : OMap T K} {l : List (T × Amount K)}
    (hm : m.pairs.Perm (l.map fun p => (p.1, p.2.1))) (h : Trademgen.CoversAll l) :
    Covering m :=
  ⟨nonneg_of_pairs hm, (sum_of_pairs hm).symm ▸ h⟩

lemma c_nonneg {m : OMap K K} (h : ∀ y ∈ m.values, 0 ≤ y) {i : ℕ}
    (hi : i < (ContinuousAttributeLite.init m).size) : 0 ≤ (ContinuousAttributeLite.init m).c i := by
  have hlt : i < m.values.length := by rwa [m.length_values]
  change 0 ≤ m.values.getD i 0
  rw [List.getD_eq_getElem _ _ hlt]
  exact h _ (List.getElem_mem hlt)

/-- **The streams** of a row that can be used. -/
lemma HandsOver.usable (hu : UniformLaw K G) (hs : RowStart s) (hd : HandsOver text s s' R d)
    (h : R.Usable m) : Usable G m (characteristicsOf d) ⟨d.demandMean, d.demandStdDev⟩ := by
  obtain ⟨_, _, hwritten⟩ := hd.written
  obtain ⟨⟨hpos, hchannel, htrip, hstay, hff⟩, hleads, hmean⟩ := h
  obtain ⟨hpos', hchannel', htrip', hstay', hff'⟩ := Row.describe_pairs (hd.describe hs)
  obtain ⟨-, -, -, -, -, -, -, htime, hvalue, hdtd⟩ := Row.describe_eq_ok (hd.describe hs)
  obtain ⟨-, -, hmean'⟩ := Row.describe_fields (hd.describe hs)
  change d.prefDepTimeProbDist = _ at htime
  change d.timeValueProbDist = _ at hvalue
  change d.dtdProbDist = _ at hdtd
  change d.demandMean = _ at hmean'
  have htimes : d.prefDepTimeProbDist.pairs ≠ [] := by
    obtain ⟨e, he, heq⟩ := hwritten.mem_always
      (show Action.storePrefDepTimeProbMass ∈ demandFields.always by decide)
    rw [htime]
    exact OMap.ofPairs_pairs_ne_nil (List.map_eq_nil_iff.not.mpr ((Row.dist_ne_nil he).1 heq))
  have hvalues : d.timeValueProbDist.pairs ≠ [] := by
    obtain ⟨e, he, heq⟩ := hwritten.mem_always
      (show Action.storeTimeValueProbMass ∈ demandFields.always by decide)
    rw [hvalue]
    exact OMap.ofPairs_pairs_ne_nil (List.map_eq_nil_iff.not.mpr ((Row.dist_ne_nil he).2.1 heq))
  have hdtds : d.dtdProbDist.pairs ≠ [] := by
    obtain ⟨e, he, heq⟩ := hwritten.mem_always
      (show Action.storeDTDProbMass ∈ demandFields.always by decide)
    rw [hdtd]
    exact OMap.ofPairs_pairs_ne_nil (List.map_eq_nil_iff.not.mpr ((Row.dist_ne_nil he).2.2 heq))
  refine ⟨fit_make hu hdtds (covering_of_perm hpos' hpos) (covering_of_perm hchannel' hchannel)
    (covering_of_perm htrip' htrip) (covering_of_perm hstay' hstay) (covering_of_perm hff' hff)
    htimes hvalues, fun hm => ?_, fun hm i hi => c_nonneg (fun y hy => ?_) hi, fun hm => ?_⟩
  · change ∃ k, (ContinuousAttributeLite.init d.dtdProbDist).Leads k
    rw [hdtd]
    exact hleads hm
  · rw [hdtd] at hy
    obtain ⟨p, hp, rfl⟩ := OMap.mem_ofPairs_values hy
    obtain ⟨q, -, rfl⟩ := List.mem_map.mp hp
    exact q.2.2
  · change 0 < d.demandMean
    rw [hmean']
    exact hmean hm

lemma HandsOver.grown (hu : UniformLaw K G) (hs : RowStart s) (hd : HandsOver text s s' R d)
    (h : R.HasActiveDate → R.Usable m) : Grown (Usable G m) s.world s'.world := by
  have hcreates := hd.handed
  refine iterateDates_grown _ (creates_range hcreates) (fun y hlow hhigh hactive => ?_) hcreates
  refine hd.usable hu hs (h ((hd.hasActiveDate_iff hs).mpr ⟨d.keyAt y, ?_⟩))
  exact (mem_createdKeys hcreates).mpr ⟨y, rfl, hlow, hhigh, hactive⟩

end Rows

/-! ### Files -/

/-- The rows that a parser reads in a text, one after the other, up to where it stops. -/
inductive RowsOf : List Char → ParserState K G Q → List (Row K) → ParserState K G Q → Prop
  | finish {text : List Char} {s s' : ParserState K G Q} :
      parse perform demandItem skipBlanks text s = .miss s' → RowsOf text s [] s'
  | other {text rest : List Char} {s s' : ParserState K G Q} {v : Value K} {rows : List (Row K)} :
      parse perform notToBeParsed skipBlanks text s = .hit v rest s → RowsOf rest s rows s' →
      RowsOf text s rows s'
  | row {text rest : List Char} {s s₁ s' : ParserState K G Q} {v : Value K} {R : Row K}
      {d : DemandStruct K} {rows : List (Row K)} :
      parse perform notToBeParsed skipBlanks text s = .miss s →
      parse perform demand skipBlanks text s = .hit v rest s₁ → HandsOver text s s₁ R d →
      RowsOf rest s₁ rows s' → RowsOf text s (R :: rows) s'

section Files

variable [IsStrictOrderedRing K] {text : List Char} {s s' : ParserState K G Q}

/-- **The rows** of a file: the streams that they create can be used. -/
lemma RowsOf.grown (hu : UniformLaw K G) {rows : List (Row K)} (h : RowsOf text s rows s')
    (hs : RowStart s) (hrows : ∀ R ∈ rows, R.HasActiveDate → R.Usable m) :
    Grown (Usable G m) s.world s'.world := by
  induction h with
  | finish hmiss =>
    have hworld := parse_demandItem_miss_world hmiss
    exact ⟨by rw [hworld], fun key hkey => .inl ⟨hworld ▸ hkey, by rw [hworld]⟩⟩
  | other hhit _ ih =>
    exact ih (hs.item (follow_eq_hit.mpr (.inl ⟨_, _, _, hhit, rfl⟩))) hrows
  | row hmiss hhit hd _ ih =>
    have hstart := hs.item (follow_eq_hit.mpr (.inr ⟨_, hmiss, hhit⟩))
    exact (hd.grown hu hs (hrows _ List.mem_cons_self)).trans
      (ih hstart fun R hR => hrows R (List.mem_cons_of_mem _ hR))

lemma exists_rowsOf_list {stop : List Char} {v : Value K}
    (h : parse perform demandList skipBlanks text s = .hit v stop s') :
    ∃ rows, RowsOf text s rows s' := by
  induction hlen : text.length using Nat.strong_induction_on generalizing text s with
  | _ n ih =>
    subst hlen
    rw [parse_demandList] at h
    rcases follow_eq_hit.mp h with ⟨v₁, r₁, s₁, hitem, hrest⟩ | ⟨s₁, hitem, heq⟩
    · have hlt : r₁.length < text.length := by
        have := parse_length length_skipBlanks hitem
        rwa [show demandItem.eats = true by decide] at this
      obtain ⟨rows, hrows⟩ := ih _ hlt hrest rfl
      have hother := parse_notToBeParsed text s
      rcases follow_eq_hit.mp hitem with ⟨v₂, r₂, s₂, hp, heq⟩ | ⟨s₂, hp, hrow⟩
      · rw [hp] at hother
        obtain rfl : s₂ = s := hother
        cases heq
        exact ⟨rows, .other hp hrows⟩
      · rw [hp] at hother
        obtain rfl : s₂ = s := hother
        obtain ⟨R, d, hd⟩ := exists_handsOver hrow
        exact ⟨R :: rows, .row hp hrow hd hrows⟩
    · cases heq
      exact ⟨[], .finish hitem⟩

/-- A file that is accepted was read row by row. -/
lemma exists_rowsOf {oResult : Bool} (h : generateDemand text s = .returned oResult s') :
    ∃ rows, RowsOf text s rows s' := by
  unfold generateDemand at h
  cases hlist : parse perform demandList skipBlanks text s with
  | hit v stop s₁ =>
    rw [hlist] at h
    cases h
    exact exists_rowsOf_list hlist
  | _ =>
    rw [hlist] at h
    cases h

end Files

section Real

variable {G Q : Type} [RandomGeneration ℝ G] [EventQueue ℝ Q] [EventManagerReset Q]
  {text : List Char} {s' : ParserState ℝ G Q}

/-- The runs of a batch on streams that no draw fails for. -/
lemma Equipped.runs (hq : EventQueueLaw ℝ Q) (hr : EventManagerResetLaw ℝ Q) (hu : UniformLaw ℝ G)
    (he : ExponentialLaw ℝ G) (hb : m = .POI_PRO → UnboundedExponentialLaw ℝ G) {w : World ℝ G Q}
    (h : Equipped m w) (iNbOfRuns : ℕ) :
    ∃ j, ∀ n ≥ j, ∃ counts w',
      DemandManager.generateDemand m n iNbOfRuns w = .ok counts w' ∧
      counts.length = iNbOfRuns ∧ ∀ i < iNbOfRuns, ∃ v,
        stateOf (DemandManager.generateDemand m n i w) = v ∧
        counts[i]? = some v.announced ∧ Merged m v (runEvents m n v) := by
  obtain ⟨j, hruns⟩ :=
    (h.batchable (.of_unbounded he hb)).generateDemand hq hr hu he iNbOfRuns
  refine ⟨j, fun n hn => ?_⟩
  obtain ⟨counts, w', hdemand, -, -, hlength, hall⟩ := hruns n hn
  refine ⟨counts, w', hdemand, hlength, fun i hi => ?_⟩
  obtain ⟨v, hv, -, -, hcount, hmerged⟩ := hall i hi
  exact ⟨v, hv, hcount, hmerged⟩

/-- **From the file to the batch**: after a demand file is read into an event manager without
streams or events, any number of runs end, when every row with an active date can be used by the
method and no key is given twice; each records what its streams drew, and its events are a merge of
what the streams generate. -/
theorem generateDemand_file (hq : EventQueueLaw ℝ Q) (hr : EventManagerResetLaw ℝ Q)
    (hu : UniformLaw ℝ G) (he : ExponentialLaw ℝ G)
    (hb : m = .POI_PRO → UnboundedExponentialLaw ℝ G) {defaultDatePeriod : DatePeriod}
    {defaultDow : DoWStruct} {defaultCabinCode : String} {w : World ℝ G Q}
    (hw : w.demandStreamList = []) (hqueue : contents w.queue = 0) {oResult : Bool}
    (h : Trademgen.generateDemand text
      ⟨.make defaultDatePeriod defaultDow defaultCabinCode, w, []⟩ = .returned oResult s')
    (hnodup : s'.world.demandStreamList.Nodup) (iNbOfRuns : ℕ) :
    (∃ rows, RowsOf text ⟨.make defaultDatePeriod defaultDow defaultCabinCode, w, []⟩ rows s') ∧
    ∀ rows, RowsOf text ⟨.make defaultDatePeriod defaultDow defaultCabinCode, w, []⟩ rows s' →
      (∀ R ∈ rows, R.HasActiveDate → R.Usable m) → ∃ j, ∀ n ≥ j, ∃ counts w',
        DemandManager.generateDemand m n iNbOfRuns s'.world = .ok counts w' ∧
        counts.length = iNbOfRuns ∧ ∀ i < iNbOfRuns, ∃ v,
          stateOf (DemandManager.generateDemand m n i s'.world) = v ∧
          counts[i]? = some v.announced ∧ Merged m v (runEvents m n v) := by
  refine ⟨exists_rowsOf h, fun rows hrows husable => ?_⟩
  have hequipped : Equipped m s'.world :=
    (hrows.grown hu (.start _ _ _ _) husable).equipped hw hqueue hnodup
  exact hequipped.runs hq hr hu he hb iNbOfRuns

/-- The shares of the categorical fields; those of the channels have their own lemma. -/
lemma amounts_shares (R : Row ℝ) :
    (amounts .storePosProbMass R.events = R.posDist.map fun p => p.2.1) ∧
    (amounts .storeTripProbMass R.events = R.tripDist.map fun p => p.2.1) ∧
    (amounts .storeStayProbMass R.events = R.stayDist.map fun p => p.2.1) ∧
    (amounts .storeFFProbMass R.events = R.ffDist.map fun p => p.2.1) := by
  refine ⟨?_, ?_, ?_, ?_⟩
  all_goals
    simp [Row.events, CalendarDate.events, ClockTime.events, amounts_pairEvents, Datum.amount,
      flatMap_none, List.map_eq_flatMap]

/-- A row whose text gives one to a field. -/
lemma coversAll_of_amounts {T : Type} {l : List (T × Amount ℝ)} {a : Action} {R : Row ℝ}
    {d : DemandStruct ℝ} {text : List Char}
    {s s' : ParserState ℝ (Tape ℝ) (SortedQueue ℝ)} (hd : HandsOver text s s' R d)
    (hl : amounts a R.events = l.map fun p => p.2.1) (ha : amountsIn ℚ a text = some [1]) :
    Trademgen.CoversAll l := by
  have hamounts := hd.amounts_eq ha
  rw [hl] at hamounts
  rw [CoversAll, hamounts]
  simp

/-- A file of one row, that covers all variates. -/
lemma rowsOf_secondRowSample : ∃ (s' : ParserState ℝ (Tape ℝ) (SortedQueue ℝ)) (R : Row ℝ),
    Trademgen.generateDemand secondRowSample startSample = .returned true s' ∧
      RowsOf secondRowSample startSample [R] s' ∧ R.CoversAll ∧
      s'.world.demandStreamList = [⟨"SIN", "HND", dayNumber 2010 3 9, "M"⟩] := by
  obtain ⟨v, s', h⟩ := matchesAll_iff.mp (show matchesAll
    (parse perform demand skipBlanks secondRowSample startSample) = true by decide +kernel)
  have hkeys : keysAfter (parse perform demand skipBlanks secondRowSample startSample)
      = [⟨"SIN", "HND", dayNumber 2010 3 9, "M"⟩] := by decide +kernel
  rw [h] at hkeys
  have hother : parse perform notToBeParsed skipBlanks secondRowSample startSample
      = .miss startSample := rfl
  have hend : parse perform demandItem skipBlanks [] s' = .miss s' := rfl
  obtain ⟨R, d, hd⟩ := exists_handsOver h
  refine ⟨s', R, ?_, .row hother h hd (.finish hend), ?_, hkeys⟩
  · have hitem : parse perform demandItem skipBlanks secondRowSample startSample = .hit v [] s' :=
      follow_eq_hit.mpr (.inr ⟨_, hother, h⟩)
    have hlist : parse perform demandList skipBlanks secondRowSample startSample
        = .hit .none [] s' := by
      rw [parse_demandList, hitem]
      change parse perform demandList skipBlanks [] s' = _
      rw [parse_demandList, hend]
      rfl
    unfold Trademgen.generateDemand
    rw [hlist]
    rfl
  · obtain ⟨hpos, htrip, hstay, hff⟩ := amounts_shares R
    exact ⟨coversAll_of_amounts hd hpos (by decide +kernel),
      coversAll_of_amounts hd (amounts_storeChannelProbMass R) (by decide +kernel),
      coversAll_of_amounts hd htrip (by decide +kernel),
      coversAll_of_amounts hd hstay (by decide +kernel),
      coversAll_of_amounts hd hff (by decide +kernel)⟩

theorem generateDemand_file_sample :
    ∃ (s' : ParserState ℝ (Tape ℝ) (SortedQueue ℝ)) (n : ℕ) (counts : List ℤ)
      (w' : World ℝ (Tape ℝ) (SortedQueue ℝ)),
      Trademgen.generateDemand secondRowSample startSample = .returned true s' ∧
      DemandManager.generateDemand .STA_ORD n 3 s'.world = .ok counts w' ∧ counts.length = 3 := by
  obtain ⟨s', R, hfile, hrows, hcovers, hkeys⟩ := rowsOf_secondRowSample
  have hnodup : s'.world.demandStreamList.Nodup := by
    rw [hkeys]
    exact List.nodup_singleton _
  obtain ⟨-, hruns⟩ := generateDemand_file (m := .STA_ORD) SortedQueue.law SortedQueue.resetLaw
    Tape.uniformLaw Tape.positiveExponentialLaw.nonneg nofun rfl rfl hfile hnodup 3
  have husable : ∀ R' ∈ [R], R'.HasActiveDate → R'.Usable .STA_ORD := by
    intro R' hR' _
    obtain rfl := List.mem_singleton.mp hR'
    exact ⟨hcovers, nofun, nofun⟩
  obtain ⟨j, hbatch⟩ := hruns [R] hrows husable
  obtain ⟨counts, w', hdemand, hlength, -⟩ := hbatch j le_rfl
  exact ⟨s', j, counts, w', hfile, hdemand, hlength⟩

end Real

end Trademgen
