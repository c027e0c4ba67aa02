import RadicleArtifact.Core.Text

/-!
# Endpoint ids in URLs

An endpoint is named in locations by a `radiroh` URL whose host is the base32 form
of its key.  A URL without a host stands for the endpoint of whoever added it.  The
base32 codec and the host of a URL are parameters.
-/

namespace RadicleArtifact.Core

open RadicleArtifact.Library

/-- `url.scheme()`: what stands before the first colon. -/
def Url.scheme (url : Url) : String :=
  String.ofList (url.serialization.toList.takeWhile (· ≠ ':'))

namespace EndpointId

def urlScheme : String := "radiroh"

def legacyUrlScheme : String := "iroh"

/-- The URL with the given host. -/
def urlOfHost (host : String) : Url where
  serialization := urlScheme ++ "://" ++ host
  scheme_mem := by
    rw [String.toList_append, String.toList_append]
    simp

theorem scheme_urlOfHost (host : String) : (urlOfHost host).scheme = urlScheme := by
  rw [Url.scheme, urlOfHost, String.toList_append, String.toList_append]
  rfl

/-- `is_endpoint_url` -/
def isEndpointUrl (url : Url) : Bool :=
  url.scheme == urlScheme

def isLegacyEndpointUrl (url : Url) : Bool :=
  url.scheme == legacyUrlScheme

end EndpointId

/-- The base32 codec of endpoint ids, and the host of a URL. -/
structure EndpointForms where
  /-- `HOST_BASE.encode` -/
  encode : EndpointId → String
  fromBase32 : String → Except Error EndpointId
  hostStr : Url → Option String
  fromBase32_encode : ∀ id, fromBase32 (encode id) = .ok id
  encode_ne_empty : ∀ id, encode id ≠ ""
  hostStr_urlOfHost : ∀ id, hostStr (EndpointId.urlOfHost (encode id)) = some (encode id)

namespace EndpointForms

variable (forms : EndpointForms)

def toUrl (id : EndpointId) : Url :=
  EndpointId.urlOfHost (forms.encode id)

/-- The endpoint of a URL; none for a URL without a host. -/
def fromUrl (url : Url) : Except Error (Option EndpointId) :=
  if url.scheme ≠ EndpointId.urlScheme then
    .error (.key ("expected " ++ EndpointId.urlScheme ++ ":// scheme, got '" ++
      url.scheme ++ "'"))
  else
    match forms.hostStr url with
    | some host => if host ≠ "" then (forms.fromBase32 host).map some else .ok none
    | none => .ok none

/-- Whether the URL advertises the endpoint as a provider. -/
def matchesUrl (endpoint : EndpointId) (url : Url) : Bool :=
  match forms.fromUrl url with
  | .ok (some id) => id == endpoint
  | .ok none => true
  | .error _ => false

variable {forms}

@[simp]
theorem fromUrl_toUrl (id : EndpointId) : forms.fromUrl (forms.toUrl id) = .ok (some id) := by
  rw [fromUrl, toUrl, EndpointId.scheme_urlOfHost, if_neg (not_not.mpr rfl),
    forms.hostStr_urlOfHost]
  simp only [ne_eq, forms.encode_ne_empty, not_false_eq_true, if_true, forms.fromBase32_encode]
  rfl

@[simp]
theorem matchesUrl_toUrl (id : EndpointId) : forms.matchesUrl id (forms.toUrl id) = true := by
  rw [matchesUrl, fromUrl_toUrl]
  exact beq_self_eq_true id

@[simp]
theorem isEndpointUrl_toUrl (id : EndpointId) :
    EndpointId.isEndpointUrl (forms.toUrl id) = true := by
  rw [EndpointId.isEndpointUrl, toUrl, EndpointId.scheme_urlOfHost]
  exact beq_self_eq_true _

/-- Only endpoint URLs match an endpoint. -/
theorem isEndpointUrl_of_matchesUrl {endpoint : EndpointId} {url : Url}
    (hmatches : forms.matchesUrl endpoint url = true) :
    EndpointId.isEndpointUrl url = true := by
  rw [matchesUrl, fromUrl] at hmatches
  by_cases hscheme : url.scheme = EndpointId.urlScheme
  · exact beq_iff_eq.mpr hscheme
  · simp [hscheme] at hmatches

/-- The codec that gives one endpoint the host as given; the host of a URL is what
follows the scheme. -/
noncomputable def sample (endpoint : EndpointId) (host : String) (hhost : '#' ∉ host.toList)
    (hne : host ≠ "") : EndpointForms :=
  let text : TextForm EndpointId := .sample endpoint host hhost
  { encode := text.print
    fromBase32 := fun host =>
      match text.parse host with
      | some id => .ok id
      | none => .error (.key ("invalid base32 endpoint id '" ++ host ++ "'"))
    hostStr := fun url =>
      some (String.ofList (url.serialization.toList.drop (EndpointId.urlScheme ++ "://").length))
    fromBase32_encode := fun id => by rw [text.parse_print]
    encode_ne_empty := fun id hempty => by
      by_cases hid : id = endpoint
      · exact hne (by
          simpa [text, TextForm.sample, TextForm.ofInjective, printSample, hid] using hempty)
      · simp [text, TextForm.sample, TextForm.ofInjective, printSample, hid] at hempty
    hostStr_urlOfHost := fun id => by
      rw [EndpointId.urlOfHost, String.toList_append, String.length, List.drop_left,
        String.ofList_toList] }

end EndpointForms

end RadicleArtifact.Core
