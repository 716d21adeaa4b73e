import InferQos.Common.JsonText
import InferQos.Simulator.Classes
/-!
# The report as a page

`html` writes a report as JSON into a `script` element of a page. JSON and
HTML do not agree on what ends a string: a writer of JSON leaves `<` and `/`
as they are, and an HTML parser ends the element at the first `</script`,
wherever it stands. The only texts of a report that are not the program's
own are the names of the classes, which come from the trace.
`html_closes_once_iff` says for which traces the template's tag is the one
that ends the script.
-/

namespace InferQos

namespace Simulator

variable {F : Type}

/-! ## The page -/

/-- **How an `f64` is written**: not with a `<`, whatever else. -/
structure NumberTexts (F : Type) where
  float : F → List Char
  plain : ∀ x, '<' ∉ float x

/-- A `u64`. -/
def u64 (n : ℕ) : List Char := Nat.toDigits 10 n

/-- The members of a `ClassReport`. -/
def classMembers (r : ClassReport) : List (String × List Char) :=
  [("requests", u64 r.requests), ("queue_p50_ms", u64 r.queueP50Ms),
    ("queue_p95_ms", u64 r.queueP95Ms), ("queue_p99_ms", u64 r.queueP99Ms),
    ("deadline_violations", u64 r.deadlineViolations)]

/-- The object of the classes, under their names. -/
def classesText (classes : OrdMap String ClassReport) : List Char :=
  jsonObject (classes.entries.map fun e => (e.1, jsonObject (classMembers e.2)))

/-- The members of a `ReplayReport`. -/
def reportMembers (N : NumberTexts F) (r : ReplayReport F) : List (String × List Char) :=
  [("configured_capacity", N.float r.configuredCapacity),
    ("average_effective_demand", N.float r.averageEffectiveDemand),
    ("peak_effective_demand", N.float r.peakEffectiveDemand),
    ("utilization_p50", N.float r.utilizationP50),
    ("utilization_p95", N.float r.utilizationP95),
    ("baseline_throttle_rate", N.float r.baselineThrottleRate),
    ("projected_throttle_rate", N.float r.projectedThrottleRate),
    ("fairness_jain_index", N.float r.fairnessJainIndex),
    ("starvation_incidents", u64 r.starvationIncidents),
    ("capacity_headroom", N.float r.capacityHeadroom),
    ("potential_capacity_deferred_units", N.float r.potentialCapacityDeferredUnits),
    ("estimated_cost_avoided", r.estimatedCostAvoided.elim "null".toList N.float),
    ("confidence", jsonString r.confidence),
    ("recommendation", jsonString r.recommendation),
    ("classes", classesText r.classes),
    ("assumptions", jsonArray (r.assumptions.map jsonString))]

/-- The template up to the data. -/
def pageHead : String :=
  "<!doctype html><meta charset=utf-8><title>InferQoS replay</title><style>body\x7bfont:16px system-ui;max-width:900px;margin:48px auto;color:#18212f\x7dpre\x7bpadding:24px;background:#f4f6f8;border-radius:12px;white-space:pre-wrap\x7d</style><h1>InferQoS replay report</h1><p>Metadata-only projection. No prompts or completions were required.</p><pre id=r></pre><script>r.textContent=JSON.stringify("

/-- **The page.** `serde_json::to_string` does not fail on a report. -/
def html (N : NumberTexts F) (r : ReplayReport F) : Except String String :=
  let data := String.ofList (jsonObject (reportMembers N r))
  .ok (pageHead ++ data ++ ",null,2)</script>")

/-! ## What ends a script -/

/-- What an HTML parser looks for, in lower case. -/
abbrev closing : List Char := '<' :: "/script".toList

/-- **A script is ended at an offset**, in whatever case. -/
def ClosesAt (text : List Char) (i : ℕ) : Prop := OccursAt closing (text.map Char.toLower) i

theorem exists_closesAt {text : List Char} : (∃ i, ClosesAt text i) ↔ Within closing text :=
  exists_occursAt

theorem foreign_closing : ForeignToJson '<' "/script".toList where
  head := by decide
  plain := by decide

theorem not_within_closing {text : List Char} (h : '<' ∉ text) : ¬ Within closing text :=
  not_within_of_notMem (by decide) h

/-- The same of a literal, whose characters the unifier finds: to compute
them again takes the kernel a time that grows with the square of its
length. -/
theorem not_within_literal {cs : List Char} (h : cs.contains '<' = false) :
    ¬ Within closing (String.ofList cs).toList := by
  rw [String.toList_ofList]
  refine not_within_closing fun hmem => ?_
  rw [List.contains_iff_mem.mpr hmem] at h
  cases h

@[inherit_doc not_within_literal]
theorem not_within_of_searchFor {cs : List Char}
    (h : searchFor '<' "/script".toList cs = false) :
    ¬ Within closing (String.ofList cs).toList := by
  rw [String.toList_ofList, within_iff_searchFor (by decide) (by decide), h]
  exact Bool.false_ne_true

theorem less_notMem_u64 (n : ℕ) : '<' ∉ u64 n := by
  intro hmem
  have hdigit : '<'.isDigit = true := Nat.isDigit_of_mem_toDigits (by omega) (by omega) hmem
  cases hdigit

theorem not_within_u64 (n : ℕ) : ¬ Within closing (u64 n) := not_within_closing (less_notMem_u64 n)

theorem not_within_float (N : NumberTexts F) (x : F) : ¬ Within closing (N.float x) :=
  not_within_closing (N.plain x)

/-- **The template's tag ends the script**, and what ends it before is in
what stands before. -/
theorem closesAt_tag_iff (text : List Char) (i : ℕ) :
    ClosesAt (text ++ ")</script>".toList) i ↔ ClosesAt text i ∨ i = text.length + 1 := by
  have hparen : ')' ∉ closing := by decide
  have htag : ∀ j, OccursAt closing ("</script>".toList.map Char.toLower) j ↔ j = 0 := by
    intro j
    constructor
    · intro hj
      have hle : j + 8 ≤ 9 := hj.le_length (List.cons_ne_nil _ _)
      have hcases : j = 0 ∨ j = 1 := by omega
      rcases hcases with rfl | rfl
      · rfl
      · exact absurd hj (by unfold OccursAt; decide)
    · rintro rfl
      unfold OccursAt
      decide
  have hsplit : (text ++ ")</script>".toList).map Char.toLower =
      text.map Char.toLower ++ ')' :: "</script>".toList.map Char.toLower := by
    rw [List.map_append]
    rfl
  unfold ClosesAt
  rw [hsplit, occursAt_append_cons_iff (List.cons_ne_nil _ _) hparen, List.length_map]
  refine or_congr_right ?_
  simp only [htag]
  constructor
  · rintro ⟨j, rfl, rfl⟩
    rfl
  · rintro rfl
    exact ⟨0, rfl, rfl⟩

/-- It alone does exactly if nothing before it does. -/
theorem closes_once_iff (text : List Char) :
    (∀ i, ClosesAt (text ++ ")</script>".toList) i ↔ i = text.length + 1) ↔
      ¬ Within closing text := by
  rw [← exists_closesAt, not_exists]
  simp only [closesAt_tag_iff]
  constructor
  · intro hall i hi
    have hlast : i = text.length + 1 := (hall i).mp (Or.inl hi)
    have hle : i + 8 ≤ (text.map Char.toLower).length := hi.le_length (List.cons_ne_nil _ _)
    rw [List.length_map] at hle
    omega
  · intro hnone i
    exact or_iff_right (hnone i)

/-! ## What a report is written as -/

/-- A `ClassReport` has no text of the trace. -/
theorem not_within_classReport (r : ClassReport) :
    ¬ Within closing (jsonObject (classMembers r)) := by
  rw [within_jsonObject_iff foreign_closing]
  rintro ⟨m, hm, hmember⟩
  simp only [classMembers, List.mem_cons, List.not_mem_nil, or_false] at hm
  rcases hm with rfl | rfl | rfl | rfl | rfl
  all_goals
    rcases hmember with hname | hvalue
    · exact not_within_literal (by decide) hname
    · exact not_within_u64 _ hvalue

/-- **What in the classes can end a script**: their names. -/
theorem within_classesText_iff (classes : OrdMap String ClassReport) :
    Within closing (classesText classes) ↔ ∃ name ∈ classes.keys, Within closing name.toList := by
  unfold classesText
  rw [within_jsonObject_iff foreign_closing]
  unfold OrdMap.keys
  simp only [List.mem_map, exists_exists_and_eq_and, not_within_classReport, or_false]

/-- The names of the members are not of the trace. -/
theorem not_within_memberName (N : NumberTexts F) (r : ReplayReport F) {m : String × List Char}
    (hm : m ∈ reportMembers N r) : ¬ Within closing m.1.toList := by
  simp only [reportMembers, List.mem_cons, List.not_mem_nil, or_false] at hm
  rcases hm with rfl | rfl | rfl | rfl | rfl | rfl | rfl | rfl | rfl | rfl | rfl | rfl | rfl | rfl |
    rfl | rfl
  all_goals exact not_within_literal (by decide)

/-- **What in a report can end a script**: its texts. -/
theorem within_report_iff (N : NumberTexts F) (r : ReplayReport F) :
    Within closing (jsonObject (reportMembers N r)) ↔
      Within closing r.confidence.toList ∨ Within closing r.recommendation.toList ∨
        (∃ name ∈ r.classes.keys, Within closing name.toList) ∨
          ∃ a ∈ r.assumptions, Within closing a.toList := by
  have hcost : ¬ Within closing (r.estimatedCostAvoided.elim "null".toList N.float) := by
    cases r.estimatedCostAvoided with
    | none => exact not_within_literal (by decide)
    | some x => exact not_within_float N x
  have hnames : (∃ m ∈ reportMembers N r, Within closing m.1.toList ∨ Within closing m.2) ↔
      ∃ m ∈ reportMembers N r, Within closing m.2 :=
    exists_congr fun m => and_congr_right fun hm => or_iff_right (not_within_memberName N r hm)
  rw [within_jsonObject_iff foreign_closing, hnames]
  simp only [reportMembers, List.exists_mem_cons_iff, not_within_float, not_within_u64, hcost,
    false_or, within_jsonString_iff foreign_closing, within_classesText_iff,
    within_jsonArray_iff foreign_closing, List.mem_map, exists_exists_and_eq_and, List.not_mem_nil,
    false_and, exists_false, or_false]

/-! ## The page of a replay -/

section Replay

variable [Rounding F] {events : List TraceEvent} {capacity : F} {cost inc : Option F}
variable {report : ReplayReport F}

theorem not_within_confidence (n : ℕ) : ¬ Within closing (confidence n).toList := by
  unfold confidence
  split
  · exact not_within_literal (by decide)
  · split
    · exact not_within_literal (by decide)
    · exact not_within_literal (by decide)

theorem not_within_recommendation (capacity avg peak sustained queueable : F) :
    ¬ Within closing (recommendation capacity avg peak sustained queueable).toList := by
  unfold recommendation
  split
  · exact not_within_literal (by decide)
  · split
    · exact not_within_literal (by decide)
    · exact not_within_literal (by decide)

theorem not_within_assumptions {a : String} (ha : a ∈ assumptions) :
    ¬ Within closing a.toList := by
  simp only [assumptions, List.mem_cons, List.not_mem_nil, or_false] at ha
  rcases ha with rfl | rfl | rfl
  all_goals exact not_within_literal (by decide)

/-- Neither the floats nor their order show in the names. -/
theorem serviceClass_zip_work (ordered : List TraceEvent) :
    (ordered.zip (work ordered : List F)).map (fun p => p.1.serviceClass) =
      ordered.map TraceEvent.serviceClass := by
  have hfirst : (ordered.zip (work ordered : List F)).map Prod.fst = ordered := by
    refine List.map_fst_zip ?_
    unfold work
    rw [List.length_map]
  calc (ordered.zip (work ordered : List F)).map (fun p => p.1.serviceClass)
      = ((ordered.zip (work ordered : List F)).map Prod.fst).map TraceEvent.serviceClass := by
        rw [List.map_map]
        rfl
    _ = ordered.map TraceEvent.serviceClass := by rw [hfirst]

/-- **The classes of a trace have the names in it.** -/
theorem mem_keys_classes {name : String} : name ∈ (classes capacity (sorted events)).keys ↔
    ∃ e ∈ events, e.serviceClass = name := by
  have hperm := (sortByKey_perm TraceEvent.timestampMs events).map TraceEvent.serviceClass
  have hnames : (((sorted events).zip (work (sorted events) : List F)).map fun p =>
      (p.1.serviceClass, wait capacity p.1 p.2)).map Prod.fst =
        (sorted events).map TraceEvent.serviceClass := by
    rw [List.map_map]
    exact serviceClass_zip_work (sorted events)
  unfold classes byClass
  rw [OrdMap.keys_mapWithKey, OrdMap.mem_keys_gather, hnames, hperm.mem_iff, List.mem_map]

/-- **What of the data ends a script**: the names of the trace. -/
theorem within_data_iff (N : NumberTexts F) (h : replay events capacity cost inc = .ok report) :
    Within closing (jsonObject (reportMembers N report)) ↔
      ∃ e ∈ events, Within closing e.serviceClass.toList := by
  obtain ⟨hclasses, hassumptions, ⟨n, hconfidence⟩, avg, peak, sustained, queueable,
    hrecommendation⟩ := report_of_replay h
  have hnone : ¬ ∃ a ∈ assumptions, Within closing a.toList := by
    rintro ⟨a, ha, hwithin⟩
    exact not_within_assumptions ha hwithin
  rw [within_report_iff, hclasses, hassumptions, hconfidence, hrecommendation]
  simp only [not_within_confidence, not_within_recommendation, hnone, false_or, or_false,
    mem_keys_classes]
  constructor
  · rintro ⟨name, ⟨e, he, rfl⟩, hwithin⟩
    exact ⟨e, he, hwithin⟩
  · rintro ⟨e, he, hwithin⟩
    exact ⟨e.serviceClass, ⟨e, he, rfl⟩, hwithin⟩

end Replay

set_option maxRecDepth 4000 in
/-- The template does not end the script before the data. -/
theorem not_within_pageHead : ¬ Within closing pageHead.toList := by
  unfold pageHead
  exact not_within_of_searchFor (by decide)

/-- The page up to the parenthesis before the template's tag. -/
def beforeTag (N : NumberTexts F) (report : ReplayReport F) : List Char :=
  pageHead.toList ++ (jsonObject (reportMembers N report) ++ ",null,2".toList)

theorem exists_page (N : NumberTexts F) (report : ReplayReport F) :
    ∃ page, html N report = .ok page := ⟨_, rfl⟩

theorem html_toList {N : NumberTexts F} {report : ReplayReport F} {page : String}
    (h : html N report = .ok page) : page.toList = beforeTag N report ++ ")</script>".toList := by
  have hend : ",null,2)</script>".toList = ",null,2".toList ++ ")</script>".toList := by decide
  have hpage : page = pageHead ++ String.ofList (jsonObject (reportMembers N report)) ++
      ",null,2)</script>" := (Except.ok.inj h).symm
  unfold beforeTag
  rw [hpage, String.toList_append, String.toList_append, String.toList_ofList, hend]
  simp only [List.append_assoc]

/-- Where the template's tag stands. -/
theorem tag_place_iff {N : NumberTexts F} {report : ReplayReport F} {page : String}
    (h : html N report = .ok page) (i : ℕ) :
    i + "</script>".length = page.toList.length ↔ i = (beforeTag N report).length + 1 := by
  have htag : "</script>".length = 9 := by decide
  have hend : ")</script>".toList.length = 10 := by decide
  rw [html_toList h, List.length_append, htag, hend]
  omega

/-- **What ends the script before the template does.** -/
theorem within_beforeTag_iff [Rounding F] (N : NumberTexts F) {events : List TraceEvent}
    {capacity : F} {cost inc : Option F} {report : ReplayReport F}
    (h : replay events capacity cost inc = .ok report) :
    Within closing (beforeTag N report) ↔ ∃ e ∈ events, Within closing e.serviceClass.toList := by
  have hnull : ¬ Within closing ",null,2".toList := not_within_literal (by decide)
  unfold beforeTag
  rw [within_around_jsonObject_iff foreign_closing, within_data_iff N h]
  simp only [not_within_pageHead, hnull, false_or, or_false]

/-- **When a page ends its script itself.** However numbers are written
without a `<`: for every trace that replay accepts there is a page, and
`</script` occurs in it, in whatever case, at the template's closing tag and
nowhere else, exactly when the name of no service class in the trace has
it. -/
theorem html_closes_once_iff [Rounding F] (N : NumberTexts F) (events : List TraceEvent)
    (capacity : F) (cost inc : Option F) (report : ReplayReport F)
    (h : replay events capacity cost inc = .ok report) :
    ∃ page, html N report = .ok page ∧
      ((∀ i, ClosesAt page.toList i ↔ i + "</script>".length = page.toList.length) ↔
        ∀ e ∈ events, ¬ Within closing e.serviceClass.toList) := by
  obtain ⟨page, hpage⟩ := exists_page N report
  refine ⟨page, hpage, ?_⟩
  simp only [tag_place_iff hpage]
  rw [html_toList hpage, closes_once_iff, within_beforeTag_iff N h]
  simp only [not_exists, not_and]

/-- Rationals written as fractions. -/
def fractions : NumberTexts ℚ where
  float q := (if q < 0 then ['-'] else []) ++ (u64 q.num.natAbs ++ '/' :: u64 q.den)
  plain q hmem := by
    rcases List.mem_append.mp hmem with hsign | hmem
    · split at hsign
      · cases List.mem_singleton.mp hsign
      · cases hsign
    · rcases List.mem_append.mp hmem with hnum | hden
      · exact less_notMem_u64 _ hnum
      · rcases List.mem_cons.mp hden with heq | hden
        · cases heq
        · exact less_notMem_u64 _ hden

/-- A trace of one request. -/
def traceOf (serviceClass : String) : List TraceEvent := [{ timestampMs := 0, serviceClass }]

/-- A page of a name that is only odd. -/
theorem html_of_less_than : ∃ report page,
    replay (traceOf "a<b</Scrip") (10 : ℚ) none none = .ok report ∧ html fractions report = .ok page ∧
    ∀ i, ClosesAt page.toList i ↔ i + "</script>".length = page.toList.length := by
  obtain ⟨report, hreplay⟩ :=
    (replay_peak (traceOf "a<b</Scrip") 10 none none).2 (by decide) (by norm_num)
  obtain ⟨page, hpage, honce⟩ := html_closes_once_iff fractions _ _ _ _ report hreplay
  refine ⟨report, page, hreplay, hpage, honce.mpr fun e he => ?_⟩
  rw [List.mem_singleton.mp he]
  exact not_within_of_searchFor (by decide)

/-- **A class name ends the script.** The class of the one request of a
trace is named like the end of a script and another one: replay accepts the
trace, and in its page `</script` occurs before the template's tag. -/
theorem class_name_ends_script : ∃ report page,
    replay (traceOf "</script><script>alert(1)</script>") (10 : ℚ) none none = .ok report ∧
      html fractions report = .ok page ∧
      ∃ i, ClosesAt page.toList i ∧ i + "</script>".length < page.toList.length := by
  obtain ⟨report, hreplay⟩ := (replay_peak (traceOf "</script><script>alert(1)</script>") 10 none
    none).2 (by decide) (by norm_num)
  have hname : Within closing "</script><script>alert(1)</script>".toList := by
    unfold Within
    decide +kernel
  have hwithin := (within_beforeTag_iff fractions hreplay).mpr ⟨_, List.mem_singleton_self _, hname⟩
  obtain ⟨i, hi⟩ := exists_closesAt.mpr hwithin
  have hle : i + 8 ≤ ((beforeTag fractions report).map Char.toLower).length :=
    hi.le_length (List.cons_ne_nil _ _)
  obtain ⟨page, hpage⟩ := exists_page fractions report
  refine ⟨report, page, hreplay, hpage, i, ?_, ?_⟩
  · rw [html_toList hpage, closesAt_tag_iff]
    exact Or.inl hi
  · have htag : "</script>".length = 9 := by decide
    have hend : ")</script>".toList.length = 10 := by decide
    rw [List.length_map] at hle
    rw [html_toList hpage, List.length_append, htag, hend]
    omega

end Simulator

end InferQos
