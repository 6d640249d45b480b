import SolidCommunity.Foundations.PercentDecoding
import SolidCommunity.Foundations.Runs
import SolidCommunity.Foundations.Transcripts
import SolidCommunity.HttpTypes.ContentPreferences
import SolidCommunity.HttpTypes.HttpMethod
import SolidCommunity.HttpTypes.Identifier
import SolidCommunity.HttpTypes.Navigation
import SolidCommunity.HttpTypes.Negotiation
import SolidCommunity.HttpTypes.PathOnly
import SolidCommunity.HttpTypes.Waterfall
import SolidCommunity.Identity.AccountExpiry
import SolidCommunity.Identity.ConcurrentAccounts
import SolidCommunity.Identity.ConcurrentCookies
import SolidCommunity.Identity.ConcurrentCredentials
import SolidCommunity.Identity.ConcurrentPods
import SolidCommunity.Identity.CookieStore
import SolidCommunity.Identity.Listings
import SolidCommunity.Identity.PodBaseUrls
import SolidCommunity.Identity.PodOwners
import SolidCommunity.Identity.PodReferences
import SolidCommunity.Identity.WebIdStore
import SolidCommunity.ServerCore.AcceptHeader
import SolidCommunity.ServerCore.Confinement
import SolidCommunity.ServerCore.ContainerKinds
import SolidCommunity.ServerCore.Containment
import SolidCommunity.ServerCore.Convergence
import SolidCommunity.ServerCore.DefaultPipeline
import SolidCommunity.ServerCore.DocumentAtomicity
import SolidCommunity.ServerCore.PostLocation
import SolidCommunity.ServerCore.PutEffects
import SolidCommunity.ServerCore.ReadAfterWrite
import SolidCommunity.ServerCore.RequestHeaders
import SolidCommunity.ServerCore.RootContainer
import SolidCommunity.ServerCore.SlashExclusivity
import SolidCommunity.ServerCore.WriteOrder
import SolidCommunity.SolidStorage.DamagedFile
import SolidCommunity.SolidStorage.EarlyExpiry
import SolidCommunity.SolidStorage.Eviction
import SolidCommunity.SolidStorage.JsonFile
import SolidCommunity.SolidStorage.JsonFileRefinement
import SolidCommunity.SolidStorage.KeySpaces
import SolidCommunity.SolidStorage.Passthrough
import SolidCommunity.SolidStorage.ResourceStore
import SolidCommunity.SolidStorage.Staleness
import SolidCommunity.SolidStorage.TimeToLive
import SolidCommunity.StaticAssets.Serving
