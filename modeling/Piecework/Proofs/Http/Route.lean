/-
# Piecework.Proofs.Http.Route — what requests at the paths of the service come to.

On its way to the service a path is cut at a question mark or a hash, compared with the paths that are served,
cut at its slashes, and rid of percent signs.  The characters of an identity pass all of this unchanged
(`IsPlain`), so the path of an expression leads to that very expression (`serve_expression`).  Every other
route has one path, and a request there comes to one question to the service.
-/
import Mathlib.Data.List.TakeWhile
import Piecework.Http.Server
import Piecework.Proofs.Ident

namespace Piecework.Http

open Json (Codec)

/-! ## Characters that stand for themselves -/

/-- The character stands for itself in a segment of a path: it ends neither the segment nor the path, and
there is no percent sign in it. -/
def IsPlain (c : Char) : Prop := c ≠ '?' ∧ c ≠ '#' ∧ c ≠ '/' ∧ 37 ∉ String.utf8EncodeChar c

theorem isPlain_digitChar : ∀ d < 32, IsPlain (Ident.digitChar d) := by
  unfold IsPlain
  decide

theorem isPlain_of_mem_characters {word : BitVec 128} {c : Char} (h : c ∈ Ident.characters word) :
    IsPlain c := by
  obtain ⟨d, hd, rfl⟩ := Ident.exists_of_mem_characters h
  exact isPlain_digitChar d hd

/-- Bytes without a percent sign stand for themselves. -/
theorem percentDecode_of_not_mem {bytes : List UInt8} (h : 37 ∉ bytes) : percentDecode bytes = bytes := by
  fun_induction percentDecode bytes with
  | case1 => exact absurd List.mem_cons_self h
  | case2 => exact absurd List.mem_cons_self h
  | case3 byte rest _ ih => rw [ih fun hmem => h (List.mem_cons_of_mem byte hmem)]
  | case4 => rfl

theorem decodeSegment_of_isPlain {segment : List Char} (h : ∀ c ∈ segment, IsPlain c) :
    decodeSegment segment = some (.ofList segment) := by
  have hbytes : (String.ofList segment).toUTF8.data.toList = segment.flatMap String.utf8EncodeChar := by
    rw [String.toUTF8, String.toByteArray_ofList, List.utf8Encode, List.data_toByteArray]
  have hplain : 37 ∉ (String.ofList segment).toUTF8.data.toList := by
    rw [hbytes, List.mem_flatMap]
    rintro ⟨c, hc, hmem⟩
    exact (h c hc).2.2.2 hmem
  have hvalid : (String.ofList segment).toUTF8.IsValidUTF8 := (String.ofList segment).isValidUTF8
  rw [decodeSegment, percentDecode_of_not_mem hplain, Array.toArray_toList, String.fromUTF8?, dif_pos hvalid]
  rfl

/-! ## The path of an expression -/

/-- A segment behind the path of all expressions leads to the expression that it names. -/
theorem Route.ofPath?_segment {segment : List Char} (hne : segment ≠ []) (h : ∀ c ∈ segment, IsPlain c) :
    ofPath? ((expressionsPath ++ "/").toList ++ segment) = some (.expression segment) := by
  have hother : ∀ path : List Char, (expressionsPath ++ "/").toList.isPrefixOf path = false →
      (expressionsPath ++ "/").toList ++ segment ≠ path := by
    rintro - hpath rfl
    rw [List.isPrefixOf_iff_prefix.mpr (List.prefix_append _ _)] at hpath
    exact Bool.noConfusion hpath
  have hslash : '/' ∉ segment := fun hmem => (h '/' hmem).2.2.1 rfl
  have hsegment : segment? ((expressionsPath ++ "/").toList ++ segment) = some segment := by
    rw [segment?, List.drop_left, if_pos ⟨List.isPrefixOf_iff_prefix.mpr (List.prefix_append _ _), hne, hslash⟩]
  rw [ofPath?, if_neg (hother _ (by decide)), if_neg (hother _ (by decide +kernel)),
    if_neg (hother _ (by decide)), if_neg (hother _ (by decide +kernel)),
    if_neg (hother _ (by decide)), hsegment]
  rfl

/-- The path of an expression is the whole target of a request for it. -/
theorem path_get_expression (id : ExpressionId) :
    (Request.get (Route.expressionsPath ++ "/" ++ id.text)).path
      = (Route.expressionsPath ++ "/").toList ++ Ident.characters id.word := by
  have htarget : (Request.get (Route.expressionsPath ++ "/" ++ id.text)).target.toList
      = (Route.expressionsPath ++ "/").toList ++ Ident.characters id.word := by
    rw [Request.get, String.toList_append, ExpressionId.text, String.toList_ofList]
  have hfront : (Route.expressionsPath ++ "/").toList.all (fun c => c ≠ '?' ∧ c ≠ '#') = true := by
    decide
  rw [Request.path, htarget, List.takeWhile_eq_self_iff]
  intro c hc
  rcases List.mem_append.mp hc with hc | hc
  · exact List.all_eq_true.mp hfront c hc
  · exact decide_eq_true ⟨(isPlain_of_mem_characters hc).1, (isPlain_of_mem_characters hc).2.1⟩

/-! ## Requests on their routes -/

section Requests

variable (s : Service) (mint : Mint) (now : Instant) {r : Request}

/-- A request with the method of its route is carried out there. -/
theorem serve_of_route {route : Route} (hroute : Route.ofPath? r.path = some route)
    (hmethod : r.method = if route.takesBody then "POST" else "GET") :
    serve s mint now r = route.run s mint now r := by
  have hserved : r.method ∈ route.methods := by
    rw [hmethod, Route.methods]
    cases route.takesBody <;> simp
  have hoptions : r.method ≠ "OPTIONS" := by
    rw [hmethod]
    cases route.takesBody <;> decide
  have hhead : r.method ≠ "HEAD" := by
    rw [hmethod]
    cases route.takesBody <;> decide
  simp only [serve, hroute, if_neg hoptions, if_neg hhead, if_neg (not_not_intro hserved)]

/-- To ask for an expression is to ask the service for it. -/
theorem serve_expression (id : ExpressionId) :
    serve s mint now (.get (Route.expressionsPath ++ "/" ++ id.text))
      = respond Wire.expressionResponse 200 (.look s (s.view id)) := by
  have hplain : ∀ c ∈ Ident.characters id.word, IsPlain c := fun c hc => isPlain_of_mem_characters hc
  have hne : Ident.characters id.word ≠ [] := by
    rw [Ident.characters, Ident.textLength, Ident.digitsBack]
    simp
  have hroute : Route.ofPath? (Request.get (Route.expressionsPath ++ "/" ++ id.text)).path
      = some (.expression (Ident.characters id.word)) := by
    rw [path_get_expression, Route.ofPath?_segment hne hplain]
  have hview : viewOf s (.ofList (Ident.characters id.word)) = s.view id := by
    rw [viewOf, ← ExpressionId.text, ExpressionId.ofText_text]
  rw [serve_of_route s mint now hroute rfl, Route.run, showExpression, decodeSegment_of_isPlain hplain]
  dsimp only
  rw [hview]

/-- To ask for all expressions is to ask the service for them. -/
theorem serve_expressions :
    serve s mint now (.get Route.expressionsPath)
      = respond Wire.expressionsResponse 200 (.look s (.ok s.list)) := by
  have hroute : Route.ofPath? (Request.get Route.expressionsPath).path = some .expressions := by decide
  rw [serve_of_route s mint now hroute rfl, Route.run]

/-- To ask for a task is to ask the service for one. -/
theorem serve_nextTask :
    serve s mint now (.get "/internal/task")
      = respond Wire.taskResponse 200 (requireTask (s.next now)) := by
  have hroute : Route.ofPath? (Request.get "/internal/task").path = some .nextTask := by decide
  rw [serve_of_route s mint now hroute rfl, Route.run]

/-- A text that can be read is given to the service. -/
theorem serve_text {text : String} (hmethod : r.method = "POST")
    (hpath : r.path = "/api/v1/calculate".toList) (hvalue : r.value Wire.calculateRequest = .ok text) :
    serve s mint now r = respond Wire.calculateResponse 201 (s.add mint now text) := by
  have hroute : Route.ofPath? r.path = some .calculate := by
    rw [hpath]
    decide
  rw [serve_of_route s mint now hroute hmethod, Route.run, withBody, hvalue]

/-- A report that can be read is given to the service. -/
theorem serve_report {report : Report} (hmethod : r.method = "POST")
    (hpath : r.path = "/internal/task/result".toList) (hvalue : r.value Wire.report = .ok report) :
    serve s mint now r = respond Wire.resultResponse 200 (s.report now report) := by
  have hroute : Route.ofPath? r.path = some .taskResult := by
    rw [hpath]
    decide
  rw [serve_of_route s mint now hroute hmethod, Route.run, withBody, hvalue]

/-! ## Requests that a client posts -/

/-- The body of a request is read when it is short enough and holds a value. -/
theorem value_post (target : String) {body : String} {codec : Codec α} {a : α}
    (hsize : body.utf8ByteSize ≤ bodyLimit) (h : codec.decode body = .ok a) :
    (Request.post target body).value codec = .ok a := by
  have hjson : announcesJson (some "application/json") = true := by decide
  simp only [Request.value, Request.post, hjson, Bool.not_true, Bool.false_eq_true, if_false, h,
    Nat.not_lt.mpr hsize]
  rfl

/-- To post a text is to give it to the service. -/
theorem serve_calculate {body text : String} (hsize : body.utf8ByteSize ≤ bodyLimit)
    (h : Wire.calculateRequest.decode body = .ok text) :
    serve s mint now (.post "/api/v1/calculate" body)
      = respond Wire.calculateResponse 201 (s.add mint now text) := by
  refine serve_text s mint now rfl ?_ (value_post _ hsize h)
  show (Request.post "/api/v1/calculate" "").path = _
  decide

/-- To post a report is to give it to the service. -/
theorem serve_taskResult {body : String} {report : Report} (hsize : body.utf8ByteSize ≤ bodyLimit)
    (h : Wire.report.decode body = .ok report) :
    serve s mint now (.post "/internal/task/result" body)
      = respond Wire.resultResponse 200 (s.report now report) := by
  refine serve_report s mint now rfl ?_ (value_post _ hsize h)
  show (Request.post "/internal/task/result" "").path = _
  decide

end Requests

end Piecework.Http
