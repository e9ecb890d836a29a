import Fman.Steps
/-!
# What libcurl is told to send

libcurl is a parameter here: a function from the options that choose the method
and the body to what it sends, of which only the documented behaviour is
assumed. The body of a request without `POSTFIELDS` comes from the read
callback, which the program never sets, and so from standard input.
-/

namespace Fman

inductive BodySource where
  | none
  | bytes (data : Octets)
  | readCallback
  deriving DecidableEq

structure Sent where
  word : Octets
  body : BodySource
  deriving DecidableEq

/-- The bytes sent as the body when `stdin` is what standard input holds. -/
def Sent.payload (stdin : Octets) (s : Sent) : Octets :=
  match s.body with
  | .none => []
  | .bytes data => data
  | .readCallback => stdin

/-- libcurl's documentation of the options `set_curl_method` uses, in the
combinations it uses them in. -/
structure Documented (sends : List CurlOption → Sent) : Prop where
  httpget : sends [.HTTPGET] = ⟨lit "GET", .none⟩
  post : sends [.POST] = ⟨lit "POST", .readCallback⟩
  postfields : ∀ data n, sends [.POST, .POSTFIELDS data, .POSTFIELDSIZE n] = ⟨lit "POST", .bytes (data.take n)⟩
  customrequest : ∀ word, sends [.CUSTOMREQUEST word] = ⟨word, .none⟩
  customfields : ∀ word data n,
    sends [.CUSTOMREQUEST word, .POSTFIELDS data, .POSTFIELDSIZE n] = ⟨word, .bytes (data.take n)⟩

def methodWord : Method → Octets
  | .GET => lit "GET"
  | .POST => lit "POST"
  | .PUT => lit "PUT"
  | .DELETE => lit "DELETE"
  | .PATCH => lit "PATCH"
  | .HEAD => lit "HEAD"
  | .OPTIONS => lit "OPTIONS"

/-- The body a case plans: none and the empty one are the same. -/
def plannedBody (c : RequestCase) : Octets := (c.body.getD []).take c.body_len

/-- The case goes out with its method and its body, whatever is on standard
input. -/
def SendsPlanned (sends : List CurlOption → Sent) (coll_id : Int) (c : RequestCase) : Prop :=
  ∃ req opts, caseRequest coll_id c = some req ∧ set_curl_method req = some opts ∧
    (sends opts).word = methodWord c.method ∧ ∀ stdin, (sends opts).payload stdin = plannedBody c

/-- A case as the front ends build them: one of the five methods, and a body of
the length it says. -/
def Sendable (c : RequestCase) : Prop :=
  c.method ∈ [Method.GET, .POST, .PUT, .DELETE, .PATCH] ∧ ∀ b, c.body = some b → c.body_len = b.length

/-- The request of a case has a body exactly where the case plans one that is
not empty. -/
theorem caseRequest_body {coll_id : Int} {c : RequestCase} {req : Request}
    (h : caseRequest coll_id c = some req) (hc : Sendable c) :
    req.method = c.method ∧
      ((plannedBody c = [] ∧ req.body = none) ∨
        (plannedBody c ≠ [] ∧ ∃ data, req.body = some data ∧ data.take req.body_len = plannedBody c)) := by
  obtain ⟨-, hlen⟩ := hc
  cases h
  refine ⟨rfl, ?_⟩
  unfold plannedBody safe_copy_blob
  cases hb : c.body with
  | none => exact .inl ⟨by simp, rfl⟩
  | some b =>
    have hl := hlen b hb
    cases b with
    | nil => exact .inl ⟨by simp, by simp [hl]⟩
    | cons x xs =>
      have hpos : 0 < c.body_len := by simp [hl]
      refine .inr ⟨by simp [hl], (x :: xs).take c.body_len, ?_, ?_⟩
      · simp [hpos, hpos.ne']
      · simp [hpos]

/-- What the body options of a request make libcurl send after a `CUSTOMREQUEST`. -/
theorem sends_custom {sends : List CurlOption → Sent} (hs : Documented sends) (word : Octets)
    {c : RequestCase} {req : Request}
    (h : (plannedBody c = [] ∧ req.body = none) ∨
      (plannedBody c ≠ [] ∧ ∃ data, req.body = some data ∧ data.take req.body_len = plannedBody c)) :
    (sends (.CUSTOMREQUEST word :: bodyOptions req)).word = word ∧
      ∀ stdin, (sends (.CUSTOMREQUEST word :: bodyOptions req)).payload stdin = plannedBody c := by
  unfold bodyOptions
  rcases h with ⟨hp, hb⟩ | ⟨-, data, hb, hd⟩
  · rw [hb, hs.customrequest, hp]
    exact ⟨rfl, fun _ => rfl⟩
  · rw [hb, hs.customfields, ← hd]
    exact ⟨rfl, fun _ => rfl⟩

/-- A case goes out as planned unless it is a `GET` with a body or a `POST`
without one. -/
theorem sends_planned_iff {sends : List CurlOption → Sent} (hs : Documented sends) {coll_id : Int}
    {c : RequestCase} (hc : Sendable c) :
    SendsPlanned sends coll_id c ↔
      (c.method = .GET → plannedBody c = []) ∧ (c.method = .POST → plannedBody c ≠ []) := by
  obtain ⟨req, hreq⟩ : ∃ req, caseRequest coll_id c = some req := ⟨_, rfl⟩
  obtain ⟨hm, hbody⟩ := caseRequest_body hreq hc
  have hiff : ∀ opts, set_curl_method req = some opts →
      (SendsPlanned sends coll_id c ↔
        (sends opts).word = methodWord c.method ∧ ∀ stdin, (sends opts).payload stdin = plannedBody c) := by
    intro opts ho
    constructor
    · rintro ⟨req', opts', hreq', ho', h⟩
      obtain rfl : req = req' := Option.some.inj (hreq.symm.trans hreq')
      obtain rfl : opts = opts' := Option.some.inj (ho.symm.trans ho')
      exact h
    · exact fun h => ⟨req, opts, hreq, ho, h⟩
  have hmem := hc.1
  cases hcm : c.method with
  | GET =>
    rw [hiff [.HTTPGET] (by simp [set_curl_method, hm, hcm]), hs.httpget, hcm]
    constructor
    -- the body of the case is not among the options
    · rintro ⟨-, h⟩
      exact ⟨fun _ => (h []).symm, by simp⟩
    · rintro ⟨h, -⟩
      exact ⟨rfl, fun _ => (h rfl).symm⟩
  | POST =>
    rw [hiff (.POST :: bodyOptions req) (by simp [set_curl_method, hm, hcm]), hcm]
    unfold bodyOptions
    rcases hbody with ⟨hp, hb⟩ | ⟨hp, data, hb, hd⟩
    · rw [hb, hs.post]
      -- the body is whatever standard input holds
      constructor
      · rintro ⟨-, h⟩
        exact absurd ((h [0]).trans hp) (by simp [Sent.payload])
      · rintro ⟨-, h⟩
        exact absurd hp (h rfl)
    · rw [hb, hs.postfields, hd]
      exact ⟨fun _ => ⟨by simp, fun _ => hp⟩, fun _ => ⟨rfl, fun _ => rfl⟩⟩
  | PUT =>
    rw [hiff _ (by simp only [set_curl_method, hm, hcm]; rfl), hcm]
    exact ⟨fun _ => ⟨by simp, by simp⟩, fun _ => sends_custom hs _ hbody⟩
  | DELETE =>
    rw [hiff _ (by simp only [set_curl_method, hm, hcm]; rfl), hcm]
    exact ⟨fun _ => ⟨by simp, by simp⟩, fun _ => sends_custom hs _ hbody⟩
  | PATCH =>
    rw [hiff _ (by simp only [set_curl_method, hm, hcm]; rfl), hcm]
    exact ⟨fun _ => ⟨by simp, by simp⟩, fun _ => sends_custom hs _ hbody⟩
  | HEAD => simp [hcm] at hmem
  | OPTIONS => simp [hcm] at hmem

/-! ## A libcurl that behaves as documented -/

/-- What `curl_easy_setopt` has set on a handle. -/
structure CurlHandle where
  word : Octets := lit "GET"
  post : Bool := false
  fields : Option Octets := none
  size : Option Nat := none

def setopt (h : CurlHandle) : CurlOption → CurlHandle
  | .HTTPGET => { h with word := lit "GET", post := false }
  | .POST => { h with word := lit "POST", post := true }
  | .CUSTOMREQUEST word => { h with word := word }
  | .POSTFIELDS data => { h with post := true, fields := some data }
  | .POSTFIELDSIZE n => { h with size := some n }
  | _ => h

def plainCurl (opts : List CurlOption) : Sent :=
  let h := opts.foldl setopt {}
  match h.post, h.fields with
  | false, _ => ⟨h.word, .none⟩
  | true, none => ⟨h.word, .readCallback⟩
  | true, some data => ⟨h.word, .bytes (data.take (h.size.getD data.length))⟩

theorem plainCurl_documented :
    Documented plainCurl := ⟨rfl, rfl, fun _ _ => rfl, fun _ => rfl, fun _ _ _ => rfl⟩

def bodyCase (method : Method) (body : Option Octets) : RequestCase :=
  { method := method, url := lit "u", body := body, body_len := (body.getD []).length }

theorem sends_planned_put : SendsPlanned plainCurl 1 (bodyCase .PUT (lit "x")) :=
  (sends_planned_iff plainCurl_documented (by simp [Sendable, bodyCase])).2 ⟨by decide, by decide⟩

/-- A `GET` loses its body, and a `POST` without one sends standard input. -/
theorem sends_unplanned : ¬ ∀ sends c, Documented sends → Sendable c → SendsPlanned sends 1 c := by
  intro h
  obtain ⟨req, opts, hreq, hopts, -, hbody⟩ :=
    h plainCurl (bodyCase .GET (lit "x")) plainCurl_documented (by simp [Sendable, bodyCase])
  cases hreq
  cases hopts
  exact absurd (hbody []) (by decide)

end Fman
