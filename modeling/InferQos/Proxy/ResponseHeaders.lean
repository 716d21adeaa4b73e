import InferQos.Common.MultiMap
/-!
# The headers of a response

`proxy_handler` drains the headers of the upstream's response and appends
those that are safe to its own. The items without a name are dropped, and
these are the further values of a name that came before: of a name that
came with several values the client sees the first
(`getAll_responseHeaders`). The copy loses nothing exactly if no safe name
has two values (`response_headers_lossless_iff`).
-/

namespace InferQos

namespace Proxy

variable {V : Type*}

/-- `response_header_safe`. -/
def responseHeaderSafe (name : String) : Bool :=
  !(["connection", "keep-alive", "proxy-authenticate", "proxy-authorization", "te", "trailer",
    "transfer-encoding", "upgrade", "set-cookie"].contains name)

/-- `HEADER_REQUEST_ID`. -/
def headerRequestId : String := "x-inferqos-request-id"

/-- One turn of the loop over `response_headers.drain()`. -/
def copyHeader (out : MultiMap String V) : Option String × V → MultiMap String V
  | (some name, value) => if responseHeaderSafe name then out.append name value else out
  | (none, _) => out

/-- **The headers of the proxied response.** -/
def responseHeaders (upstream : MultiMap String V) (requestId : V) : MultiMap String V :=
  (upstream.drain.foldl copyHeader ∅).insert headerRequestId requestId

variable {name : String}

/-- The values one item adds. -/
theorem getAll_copyHeader (out : MultiMap String V) (item : Option String × V) :
    (copyHeader out item).getAll name =
      out.getAll name ++ if responseHeaderSafe name then MultiMap.named name [item] else [] := by
  obtain ⟨_ | itsName, value⟩ := item
  · have hnone : MultiMap.named name [(none, value)] = [] := rfl
    rw [hnone, ite_self, List.append_nil]
    rfl
  · simp only [copyHeader]
    by_cases hname : name = itsName
    · subst hname
      have hone : MultiMap.named name [(some name, value)] = [value] := by
        simp [MultiMap.named]
      by_cases hsafe : responseHeaderSafe name = true
      · rw [if_pos hsafe, if_pos hsafe, MultiMap.getAll_append, if_pos rfl, hone]
      · rw [if_neg hsafe, if_neg hsafe, List.append_nil]
    · have hnone : MultiMap.named name [(some itsName, value)] = [] := by
        simp [MultiMap.named, Ne.symm hname]
      rw [hnone, ite_self, List.append_nil]
      split_ifs
      · rw [MultiMap.getAll_append, if_neg hname]
      · rfl

/-- The values the whole loop adds. -/
theorem getAll_foldl_copyHeader (items : List (Option String × V)) (out : MultiMap String V) :
    (items.foldl copyHeader out).getAll name =
      out.getAll name ++ if responseHeaderSafe name then MultiMap.named name items else [] := by
  induction items generalizing out with
  | nil =>
    have hnone : MultiMap.named name ([] : List (Option String × V)) = [] := rfl
    rw [hnone, ite_self, List.append_nil]
    rfl
  | cons item items ih =>
    have hsplit : MultiMap.named name (item :: items) =
        MultiMap.named name [item] ++ MultiMap.named name items :=
      MultiMap.named_append name [item] items
    rw [List.foldl_cons, ih, getAll_copyHeader, hsplit]
    split_ifs
    · rw [List.append_assoc]
    · rw [List.append_nil]

/-- **The client sees the first value of each safe name.** -/
theorem getAll_responseHeaders (upstream : MultiMap String V) (requestId : V)
    (hname : name ≠ headerRequestId) :
    (responseHeaders upstream requestId).getAll name =
      if responseHeaderSafe name then (upstream.getAll name).head?.toList else [] := by
  unfold responseHeaders
  rw [MultiMap.getAll_insert, if_neg hname, getAll_foldl_copyHeader, MultiMap.named_drain]
  rfl

theorem toList_head?_eq_self_iff {l : List V} : l.head?.toList = l ↔ l.length ≤ 1 := by
  match l with
  | [] => simp
  | [_] => simp
  | _ :: _ :: _ => simp

/-- **When the headers of a response pass without loss**: exactly if no
safe name comes with two values. -/
theorem response_headers_lossless_iff (upstream : MultiMap String V) (requestId : V) :
    (∀ name, name ≠ headerRequestId →
        (responseHeaders upstream requestId).getAll name =
          if responseHeaderSafe name then upstream.getAll name else []) ↔
      ∀ name, name ≠ headerRequestId → responseHeaderSafe name = true →
        (upstream.getAll name).length ≤ 1 := by
  refine forall_congr' fun name => forall_congr' fun hname => ?_
  rw [getAll_responseHeaders upstream requestId hname]
  by_cases hsafe : responseHeaderSafe name = true
  · rw [if_pos hsafe, if_pos hsafe, toList_head?_eq_self_iff]
    exact ⟨fun h _ => h, fun h => h hsafe⟩
  · rw [if_neg hsafe, if_neg hsafe]
    exact ⟨fun _ h => absurd h hsafe, fun _ => rfl⟩

/-- A response with two `link` headers. -/
def linkedResponse : MultiMap String String :=
  ((∅ : MultiMap String String).append "link" "</a>; rel=next").append "link" "</b>; rel=prev"

/-- **The second of two `link` headers is lost.** -/
theorem second_link_lost :
    responseHeaderSafe "link" = true ∧
      linkedResponse.getAll "link" = ["</a>; rel=next", "</b>; rel=prev"] ∧
      (responseHeaders linkedResponse "7").getAll "link" = ["</a>; rel=next"] := by
  decide

end Proxy

end InferQos
