import HfmcBot.Foundation.HttpText
import HfmcBot.LiveLoop

/-!
# The metrics endpoint

`metrics.rs`: the published snapshot in the Prometheus text format, served over HTTP.

* `Metric.lines`, `metricsOf`: the text, metric by metric;
* `scrape`: what a scraper reads from such a text;
* `metrics_round_trip`: what a client and a scraper make of an answer are the published
  numbers.
-/

namespace HfmcBot

open Foundation

/-! ## The text format -/

/-- A metric of one sample. -/
structure Metric where
  name : String
  help : String
  kind : String
  value : Line

def Metric.lines (m : Metric) : List Line :=
  [("# HELP " ++ m.name ++ " " ++ m.help).toList, ("# TYPE " ++ m.name ++ " " ++ m.kind).toList,
    m.name.toList ++ ' ' :: m.value]

def natText (n : Nat) : Line := (toString n).toList

/-- The metrics of a snapshot; `decimalText` is how a decimal prints. -/
def metricsOf (decimalText : Decimal → Line) (s : EngineSnapshot) : List Metric :=
  [⟨"hfmcbot_equity_usd", "Realized equity in USD.", "gauge", decimalText s.equityUsd⟩,
    ⟨"hfmcbot_deployed_usd", "USD locked in open positions.", "gauge",
      decimalText s.deployedUsd⟩,
    ⟨"hfmcbot_open_positions", "Open position count.", "gauge", natText s.openPositions⟩,
    ⟨"hfmcbot_closed_trades_total", "Closed trade count.", "counter", natText s.closedTrades⟩,
    ⟨"hfmcbot_trade_wins_total", "Winning closed trades.", "counter", natText s.wins⟩,
    ⟨"hfmcbot_trade_losses_total", "Losing closed trades.", "counter", natText s.losses⟩,
    ⟨"hfmcbot_realized_pnl_usd", "Cumulative realized P&L in USD.", "counter",
      decimalText s.realizedPnlUsd⟩,
    ⟨"hfmcbot_day_realized_pnl_usd", "Current UTC-day realized P&L.", "gauge",
      decimalText s.dayRealizedPnlUsd⟩,
    ⟨"hfmcbot_kill_switch", "Circuit-breaker state (1 = tripped).", "gauge",
      natText (if s.killSwitch then 1 else 0)⟩,
    ⟨"hfmcbot_stuck_positions", "Positions marked unsellable.", "gauge",
      natText s.stuckPositions⟩]

/-- Lines, each with its newline. -/
def unlines (lines : List Line) : List Char := lines.flatMap fun line => line ++ ['\n']

def renderPrometheusText (decimalText : Decimal → Line) (s : EngineSnapshot) : List Char :=
  unlines ((metricsOf decimalText s).flatMap Metric.lines)

/-! ## The endpoint -/

/-- `split_whitespace`. -/
def splitWhitespace (line : Line) : List Line :=
  (line.splitOnP isWhitespace).filter fun word => word ≠ []

/-- The path of a request, as the first read brought it. -/
def requestPath (req : List Char) : Line :=
  ((readLines req).head?.bind fun line => (splitWhitespace line)[1]?).getD ['/']

/-- The answer to a request. -/
def answerRequest (decimalText : Decimal → Line) (s : EngineSnapshot) (req : List Char) :
    HttpResponse :=
  let path := requestPath req
  if path = "/healthz".toList then ⟨"200 OK".toList, "text/plain".toList, "ok\n".toList⟩
  else if path = "/metrics".toList then
    ⟨"200 OK".toList, "text/plain; version=0.0.4".toList, renderPrometheusText decimalText s⟩
  else ⟨"404 Not Found".toList, "text/plain".toList, "not found\n".toList⟩

/-! ## The way back -/

/-- The sample of a line, if it is no comment: its name and its value. -/
def sampleOf (line : Line) : Option (Line × Line) :=
  if line.head? = some '#' ∨ ' ' ∉ line then none
  else some (line.takeWhile (· ≠ ' '), (line.dropWhile (· ≠ ' ')).drop 1)

/-- What a scraper reads. -/
def scrape (text : List Char) : List (Line × Line) := (readLines text).filterMap sampleOf

/-- A text that stays within its line. -/
def OneLine (text : Line) : Prop := '\n' ∉ text ∧ '\r' ∉ text

instance (text : Line) : Decidable (OneLine text) := by
  unfold OneLine
  infer_instance

/-- The name is one word, and no comment; nothing of the metric leaves its line. -/
structure Metric.Plain (m : Metric) : Prop where
  name : OneLine m.name.toList
  word : ' ' ∉ m.name.toList
  sample : m.name.toList.head? ≠ some '#' ∧ m.name.toList ≠ []
  help : OneLine m.help.toList
  kind : OneLine m.kind.toList
  value : OneLine m.value

theorem oneLine_append {before after : Line} (hbefore : OneLine before) (hafter : OneLine after) :
    OneLine (before ++ after) := by
  constructor
  · exact fun hmem => (List.mem_append.mp hmem).elim hbefore.1 hafter.1
  · exact fun hmem => (List.mem_append.mp hmem).elim hbefore.2 hafter.2

theorem Metric.Plain.oneLine {m : Metric} (h : m.Plain) {line : Line} (hline : line ∈ m.lines) :
    OneLine line := by
  have hspace : OneLine " ".toList := by decide
  simp only [Metric.lines, List.mem_cons, List.not_mem_nil, or_false] at hline
  rcases hline with rfl | rfl | rfl
  · simp only [String.toList_append]
    exact oneLine_append (oneLine_append (oneLine_append (by decide) h.name) hspace) h.help
  · simp only [String.toList_append]
    exact oneLine_append (oneLine_append (oneLine_append (by decide) h.name) hspace) h.kind
  · exact oneLine_append h.name (oneLine_append hspace h.value)

/-- Of the three lines of a metric the last one is its sample. -/
theorem Metric.Plain.samples {m : Metric} (h : m.Plain) :
    m.lines.filterMap sampleOf = [(m.name.toList, m.value)] := by
  have hcomment : ∀ rest : Line, sampleOf ('#' :: rest) = none := fun rest => by simp [sampleOf]
  have hsample : sampleOf (m.name.toList ++ ' ' :: m.value) = some (m.name.toList, m.value) := by
    have hhead : (m.name.toList ++ ' ' :: m.value).head? ≠ some '#' := by
      rw [List.head?_append_of_ne_nil _ h.sample.2]
      exact h.sample.1
    have hword : ∀ c ∈ m.name.toList, decide (c ≠ ' ') = true := by
      intro c hc
      rw [decide_eq_true_iff]
      rintro rfl
      exact h.word hc
    rw [sampleOf, if_neg (not_or.mpr ⟨hhead, not_not.mpr (by simp)⟩)]
    rw [List.takeWhile_append_of_pos hword, List.dropWhile_append_of_pos hword]
    simp
  have hhelp : ("# HELP " ++ m.name ++ " " ++ m.help).toList =
      '#' :: (" HELP ".toList ++ m.name.toList ++ " ".toList ++ m.help.toList) := by
    simp
  have htype : ("# TYPE " ++ m.name ++ " " ++ m.kind).toList =
      '#' :: (" TYPE ".toList ++ m.name.toList ++ " ".toList ++ m.kind.toList) := by
    simp
  rw [Metric.lines, hhelp, htype, List.filterMap_cons_none (hcomment _),
    List.filterMap_cons_none (hcomment _), List.filterMap_cons_some hsample]
  rfl

/-- A scraper reads one sample for each metric, in order. -/
theorem scrape_unlines {ms : List Metric} (h : ∀ m ∈ ms, m.Plain) :
    scrape (unlines (ms.flatMap Metric.lines)) = ms.map fun m => (m.name.toList, m.value) := by
  have honeLine : ∀ line ∈ ms.flatMap Metric.lines, OneLine line := by
    intro line hline
    obtain ⟨m, hm, hmem⟩ := List.mem_flatMap.mp hline
    exact (h m hm).oneLine hmem
  have hlines : readLines (unlines (ms.flatMap Metric.lines)) = ms.flatMap Metric.lines := by
    refine readLines_flatMap (fun line hline => (honeLine line hline).1) fun line hline hlast => ?_
    exact (honeLine line hline).2 (List.mem_of_getLast? hlast)
  rw [scrape, hlines, List.filterMap_flatMap, List.map_eq_flatMap]
  exact List.flatMap_congr fun m hm => (h m hm).samples

theorem oneLine_natText (n : Nat) : OneLine (natText n) :=
  ⟨notMem_digits (by decide) n, notMem_digits (by decide) n⟩

/-- Only the value of a metric is not fixed. -/
theorem plain_of_value {name help kind : String} {value : Line}
    (hfixed : OneLine name.toList ∧ ' ' ∉ name.toList ∧
      (name.toList.head? ≠ some '#' ∧ name.toList ≠ []) ∧ OneLine help.toList ∧
      OneLine kind.toList) (hvalue : OneLine value) : Metric.Plain ⟨name, help, kind, value⟩ :=
  ⟨hfixed.1, hfixed.2.1, hfixed.2.2.1, hfixed.2.2.2.1, hfixed.2.2.2.2, hvalue⟩

/-- The metrics of every snapshot are plain, if decimals print in one line. -/
theorem metricsOf_plain {decimalText : Decimal → Line} (hdecimal : ∀ x, OneLine (decimalText x))
    (s : EngineSnapshot) : ∀ m ∈ metricsOf decimalText s, m.Plain := by
  intro m hm
  simp only [metricsOf, List.mem_cons, List.not_mem_nil, or_false] at hm
  rcases hm with rfl | rfl | rfl | rfl | rfl | rfl | rfl | rfl | rfl | rfl
  all_goals
    refine plain_of_value (by decide) ?_
    first
      | exact hdecimal _
      | exact oneLine_natText _

/-- For every published snapshot and every request, a client reads the answer as it was meant,
with a body of the stated length; and from the answer to a request for `/metrics`, a scraper
reads each number once, under its own name, as it was published. -/
theorem metrics_round_trip (decimalText : Decimal → Line)
    (hdecimal : ∀ x, OneLine (decimalText x)) (s : EngineSnapshot) (req : List Char) :
    ∃ r, readResponse (answerRequest decimalText s req).text = some r ∧
      (r.status = "200 OK".toList ↔
        requestPath req = "/metrics".toList ∨ requestPath req = "/healthz".toList) ∧
      (requestPath req = "/metrics".toList →
        scrape r.body = (metricsOf decimalText s).map (fun m => (m.name.toList, m.value)) ∧
          ((scrape r.body).map Prod.fst).Nodup) := by
  refine ⟨answerRequest decimalText s req, ?_, ?_, fun hpath => ?_⟩
  · unfold answerRequest
    dsimp only
    split
    · exact readResponse_text (by decide) (by decide)
    · split
      · have hstatus : '\r' ∉ "200 OK".toList := by decide
        have htype : '\r' ∉ "text/plain; version=0.0.4".toList := by decide
        exact readResponse_text hstatus htype
      · exact readResponse_text (by decide) (by decide)
  · unfold answerRequest
    dsimp only
    split
    · rename_i hhealth
      simp [hhealth]
    · rename_i hhealth
      split
      · rename_i hmetrics
        simp [hmetrics]
      · rename_i hmetrics
        exact ⟨fun hok => absurd hok (by decide), fun hpath => (hpath.elim hmetrics hhealth).elim⟩
  · have hbody : (answerRequest decimalText s req).body = renderPrometheusText decimalText s := by
      unfold answerRequest
      dsimp only
      rw [if_neg (by rw [hpath]; decide), if_pos hpath]
    have hscrape := scrape_unlines (metricsOf_plain hdecimal s)
    rw [hbody, renderPrometheusText, hscrape]
    refine ⟨rfl, ?_⟩
    rw [List.map_map]
    show ((metricsOf decimalText s).map fun m => m.name.toList).Nodup
    simp only [metricsOf, List.map_cons, List.map_nil]
    decide

/-- A flat bot asked for its metrics. -/
theorem metrics_round_trip_flat :
    let decimalText : Decimal → Line := fun x =>
      if x = 50000 then "50000".toList else "0".toList
    let s : EngineSnapshot := ⟨50000, 0, 0, 0, 0, 0, 0, 0, false, 0⟩
    let req := "GET /metrics HTTP/1.1\r\nhost: x\r\n\r\n".toList
    ∃ r, readResponse (answerRequest decimalText s req).text = some r ∧
      scrape r.body = (metricsOf decimalText s).map (fun m => (m.name.toList, m.value)) := by
  intro decimalText s req
  have hdecimal : ∀ x, OneLine (decimalText x) := by
    intro x
    show OneLine (if x = 50000 then "50000".toList else "0".toList)
    split
    · decide
    · decide
  obtain ⟨r, hread, -, hmetrics⟩ := metrics_round_trip decimalText hdecimal s req
  exact ⟨r, hread, (hmetrics (by decide +kernel)).1⟩

end HfmcBot
